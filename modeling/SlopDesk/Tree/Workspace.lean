/-
SlopDesk.Tree.Workspace — the workspace tree and the order of its tabs.
-/
import SlopDesk.Tree.SplitTree

/-! # Sessions, their tabs and panes, and the repairs
every close and cascade ends in (`slopdesk-tree/src/session.rs` and
`workspace.rs`).

A session keeps the specs of its panes in a side table, whose keys are to
be exactly its tree leaves and its detached panes. The two repairs are
`normalizingSpecs`, which makes the table match the panes, and
`normalizingActive`, which makes every selection name something there.
-/

namespace SlopDesk.Tree

open SlopDesk.Base

/-! ## Panes -/

inductive PaneKind where
  | terminal
  | desktop
  deriving DecidableEq

namespace PaneKind

/-- `from_byte`: anything but one is a terminal. -/
def fromByte (byte : UInt8) : PaneKind := if byte = 1 then .desktop else .terminal

def asByte : PaneKind → UInt8
  | .terminal => 0
  | .desktop => 1

def isVideo : PaneKind → Bool
  | .terminal => false
  | .desktop => true

end PaneKind

structure VideoEndpoint where
  windowId : UInt32
  title : String
  appName : String
  displayId : Option UInt32
  deriving DecidableEq

structure PaneSpec where
  kind : PaneKind
  title : String
  video : Option VideoEndpoint := none
  userRenamed : Bool := false
  deriving DecidableEq

/-- `DEFAULT_PANE_TITLE`. -/
def defaultPaneTitle : String := "Terminal"

/-- `DEFAULT_SESSION_NAME`. -/
def defaultSessionName : String := "Local"

/-- `DEFAULT_DESKTOP_PANE_TITLE`. -/
def defaultDesktopPaneTitle : String := "Desktop"

/-- The spec of a pane that is seeded. -/
def PaneSpec.seeded : PaneSpec := { kind := .terminal, title := defaultPaneTitle }

/-! ## Tabs and sessions -/

structure Tab where
  id : TabId
  title : String
  root : SplitNode
  activePane : Option PaneId
  zoomedPane : Option PaneId
  deriving DecidableEq

namespace Tab

def new (id : TabId) (root : SplitNode) : Tab where
  id := id
  title := ""
  root := root
  activePane := root.firstLeafId
  zoomedPane := none

def allPaneIds (tab : Tab) : List PaneId := tab.root.allPaneIds

def contains (tab : Tab) (id : PaneId) : Bool := tab.root.contains id

end Tab

structure DetachedPane where
  pane : PaneId
  originTab : Option TabId
  deriving DecidableEq

structure Session where
  id : SessionId
  name : String
  tabs : List Tab
  activeTabIndex : Nat
  specs : BTreeMap PaneId PaneSpec
  detached : List DetachedPane

inductive NewTabPosition where
  | auto
  | atEnd
  | afterCurrent
  deriving DecidableEq

namespace NewTabPosition

def fromByte (byte : UInt8) : NewTabPosition :=
  match byte with
  | 1 => .atEnd
  | 2 => .afterCurrent
  | _ => .auto

def asByte : NewTabPosition → UInt8
  | .auto => 0
  | .atEnd => 1
  | .afterCurrent => 2

def insertionIndex (position : NewTabPosition) (activeIndex tabCount : Nat) : Nat :=
  match position with
  | .auto | .atEnd => tabCount
  | .afterCurrent =>
    if tabCount = 0 then 0
    else (if activeIndex < tabCount then activeIndex else tabCount - 1) + 1

end NewTabPosition

namespace Session

def singlePane (id : SessionId) (name : String) (tab : TabId) (pane : PaneId) (spec : PaneSpec) :
    Session where
  id := id
  name := name
  tabs := [.new tab (.leaf pane)]
  activeTabIndex := 0
  specs := (∅ : BTreeMap PaneId PaneSpec).insert pane spec
  detached := []

/-- `all_pane_ids`: the leaves of every tab, in tab order. -/
def allPaneIds (s : Session) : List PaneId := s.tabs.flatMap Tab.allPaneIds

/-- The panes detached, in detach order. -/
def detachedIds (s : Session) : List PaneId := s.detached.map DetachedPane.pane

def isDetached (s : Session) (id : PaneId) : Bool := s.detached.any fun entry => entry.pane = id

def contains (s : Session) (id : PaneId) : Bool := s.tabs.any fun tab => tab.contains id

def specFor (s : Session) (id : PaneId) : Option PaneSpec :=
  if s.contains id || s.isDetached id then s.specs[id]? else none

def tabIndexContaining (s : Session) (id : PaneId) : Option Nat :=
  s.tabs.findIdx? fun tab => tab.contains id

/-- The index of the first tab of that id. -/
def tabIndexOf (s : Session) (id : TabId) : Option Nat := s.tabs.findIdx? fun tab => tab.id = id

def newTabIndex (s : Session) (position : NewTabPosition) : Nat :=
  position.insertionIndex s.activeTabIndex s.tabs.length

end Session

/-! ## Workspaces -/

structure TreeWorkspace where
  sessions : List Session
  activeSessionId : Option SessionId

namespace TreeWorkspace

def singlePane (session : SessionId) (tab : TabId) (pane : PaneId) (spec : PaneSpec) :
    TreeWorkspace where
  sessions := [.singlePane session defaultSessionName tab pane spec]
  activeSessionId := some session

def defaultWorkspace (session : SessionId) (tab : TabId) (pane : PaneId) : TreeWorkspace :=
  singlePane session tab pane .seeded

/-- The tabs of every session. -/
def tabs (ws : TreeWorkspace) : List Tab := ws.sessions.flatMap Session.tabs

def detachedPaneIds (ws : TreeWorkspace) : List PaneId := ws.sessions.flatMap Session.detachedIds

def isDetached (ws : TreeWorkspace) (id : PaneId) : Bool := ws.sessions.any fun s => s.isDetached id

def contains (ws : TreeWorkspace) (id : PaneId) : Bool := ws.sessions.any fun s => s.contains id

def locationOf (ws : TreeWorkspace) (id : PaneId) : Option (SessionId × TabId) :=
  ws.sessions.findSome? fun s =>
    (s.tabs.find? fun tab => tab.contains id).map fun tab => (s.id, tab.id)

/-- The index of the session of that id. -/
def sessionIndexOf (ws : TreeWorkspace) (id : SessionId) : Option Nat :=
  ws.sessions.findIdx? fun s => s.id = id

def activeSessionIndex (ws : TreeWorkspace) : Option Nat :=
  let first := if ws.sessions.isEmpty then none else some 0
  match ws.activeSessionId with
  | none => first
  | some id => (ws.sessionIndexOf id).or first

/-- A workspace with one of its sessions replaced. -/
def setSession (ws : TreeWorkspace) (index : Nat) (session : Session) : TreeWorkspace :=
  { ws with sessions := ws.sessions.set index session }

/-! ## The spec invariant and its repair -/

end TreeWorkspace

namespace Session

/-- The keys of the side table are the leaves and the detached panes. -/
def specsMatch (s : Session) : Bool :=
  s.specs.keys.all (fun id => s.contains id || s.isDetached id) &&
    (s.allPaneIds ++ s.detachedIds).all fun id => s.specs.contains id

theorem specsMatch_iff (s : Session) :
    s.specsMatch = true ↔ ∀ p, p ∈ s.specs ↔ p ∈ s.allPaneIds ∨ p ∈ s.detachedIds := by
  have hleaf : ∀ p, s.contains p = true ↔ p ∈ s.allPaneIds := fun p => by
    simp [contains, allPaneIds, Tab.contains, Tab.allPaneIds, SplitNode.contains_iff]
  have hdetached : ∀ p, s.isDetached p = true ↔ p ∈ s.detachedIds := fun p => by
    simp [isDetached, detachedIds]
  simp only [specsMatch, Bool.and_eq_true, List.all_eq_true, Bool.or_eq_true, hleaf, hdetached,
    List.mem_append, Std.ExtTreeMap.mem_keys, Std.ExtTreeMap.contains_iff_mem]
  exact ⟨fun h p => ⟨h.1 p, h.2 p⟩, fun h => ⟨fun p => (h p).mp, fun p => (h p).mpr⟩⟩

/-- The detached list `normalizing_specs` keeps: no leaf, no pane without
a spec, no pane twice. -/
def retainDetached (leaves : List PaneId) (specs : BTreeMap PaneId PaneSpec) :
    (seen : List PaneId) → List DetachedPane → List DetachedPane
  | _, [] => []
  | seen, entry :: rest =>
    if !leaves.contains entry.pane && specs.contains entry.pane && !seen.contains entry.pane then
      entry :: retainDetached leaves specs (entry.pane :: seen) rest
    else retainDetached leaves specs seen rest

/-- One session of `normalizing_specs`. -/
def normalizingSpecs (s : Session) : Session :=
  let leaves := s.allPaneIds
  let detached := retainDetached leaves s.specs [] s.detached
  let kept := s.specs.filter fun id _ =>
    leaves.contains id || (detached.map DetachedPane.pane).contains id
  { s with
    detached := detached
    specs := leaves.foldl (fun specs id => specs.insertIfNew id .seeded) kept }

end Session

/-- One tab of `normalizing_active`: a focus or a zoom that names no leaf
is replaced. -/
def Tab.reselected (tab : Tab) : Tab :=
  let leaves := tab.allPaneIds
  { tab with
    activePane :=
      if tab.activePane.any fun pane => leaves.contains pane then tab.activePane
      else tab.root.firstLeafId
    zoomedPane :=
      if tab.zoomedPane.any fun pane => leaves.contains pane then tab.zoomedPane else none }

namespace Session

/-- The re-seed of `normalizing_active`: a session without a tab gets
one. -/
def seeded (s : Session) (ids : IdSource) : Session × IdSource :=
  if s.tabs.isEmpty then
    let (tab, ids) := ids.tab
    let (pane, ids) := ids.pane
    ({ s with specs := s.specs.insert pane .seeded, tabs := [.new tab (.leaf pane)] }, ids)
  else (s, ids)

/-- The selections of `normalizing_active`, once a session has a tab. -/
def reselected (s : Session) : Session :=
  { s with
    activeTabIndex := if s.activeTabIndex ≥ s.tabs.length then 0 else s.activeTabIndex
    tabs := s.tabs.map Tab.reselected }

end Session

namespace TreeWorkspace

def invariantHolds (ws : TreeWorkspace) : Bool := ws.sessions.all Session.specsMatch

def normalizingSpecs (ws : TreeWorkspace) : TreeWorkspace :=
  { ws with sessions := ws.sessions.map Session.normalizingSpecs }

/-- The sessions of `normalizing_active`, the identities drawn in their
order. -/
def normalizedSessions : List Session → IdSource → List Session × IdSource
  | [], ids => ([], ids)
  | s :: rest, ids =>
    let (s, ids) := s.seeded ids
    let (rest, ids) := normalizedSessions rest ids
    (s.reselected :: rest, ids)

def normalizingActive (ws : TreeWorkspace) (ids : IdSource) : TreeWorkspace × IdSource :=
  if ws.sessions.isEmpty then
    let (session, ids) := ids.session
    let (tab, ids) := ids.tab
    let (pane, ids) := ids.pane
    (defaultWorkspace session tab pane, ids)
  else
    let (sessions, ids) := normalizedSessions ws.sessions ids
    let named := ws.activeSessionId.any fun id => sessions.any fun s => s.id = id
    (⟨sessions, if named then ws.activeSessionId else sessions.head?.map Session.id⟩, ids)

/-- `normalized`: the specs, then the selections. -/
def normalized (ws : TreeWorkspace) (ids : IdSource) : TreeWorkspace × IdSource :=
  ws.normalizingSpecs.normalizingActive ids

/-! ## The launch restore -/

end TreeWorkspace

/-- The tree without some of its panes, one after the other: nothing once
one of them was the last. -/
def SplitNode.withoutPanes (node : SplitNode) : List PaneId → Option SplitNode
  | [] => some node
  | id :: rest =>
    if !node.contains id then node.withoutPanes rest
    else
      match node.removing id with
      | none => none
      | some pruned => pruned.withoutPanes rest

/-- One session of `dropping_video_panes`. -/
def Session.droppingVideoPanes (s : Session) : Session :=
  let video := s.specs.keys.filter fun id => s.specs[id]?.any fun spec => spec.kind.isVideo
  if video.isEmpty then s
  else
    { s with
      detached := s.detached.filter fun entry => !video.contains entry.pane
      specs := video.foldl (fun specs id => specs.erase id) s.specs
      tabs := s.tabs.filterMap fun tab =>
        (tab.root.withoutPanes video).map fun root => { tab with root := root } }

def TreeWorkspace.droppingVideoPanes (ws : TreeWorkspace) : TreeWorkspace :=
  { ws with sessions := ws.sessions.map Session.droppingVideoPanes }

end SlopDesk.Tree

/-! # The order the sidebar draws tabs in, and the
tab to select once one is closed (`slopdesk-tree/src/tab_ordering.rs`).

Tabs are bucketed by project, the buckets in the natural order of their
headers, the tabs of a bucket in creation order. A tab's project is its
active pane's, else the first one of its panes has. `lower` stands for the
first character of `char::to_lowercase`.
-/

namespace SlopDesk.Tree

/-! ## Project keys -/

/-- The Unicode `White_Space` that `str::trim` strips. -/
def isWhiteSpace (c : Char) : Bool :=
  c.val ∈ ([0x9, 0xA, 0xB, 0xC, 0xD, 0x20, 0x85, 0xA0, 0x1680, 0x2000, 0x2001, 0x2002, 0x2003, 0x2004,
    0x2005, 0x2006, 0x2007, 0x2008, 0x2009, 0x200A, 0x2028, 0x2029, 0x202F, 0x205F, 0x3000] : List UInt32)

def trim (text : List Char) : List Char :=
  ((text.dropWhile isWhiteSpace).reverse.dropWhile isWhiteSpace).reverse

/-- The slashes a reversed key ends in, stripped while it is longer than
one character. -/
def stripSlashes : List Char → List Char
  | '/' :: c :: rest => stripSlashes (c :: rest)
  | reversed => reversed

def normalizedProjectKey (key : Option String) : Option String :=
  key.bind fun key =>
    let folded := (stripSlashes (trim key.toList).reverse).reverse
    if folded.isEmpty then none else some (String.ofList folded)

/-- `split('/')`. -/
def slashParts (text : List Char) : List (List Char) := text.splitOn '/'

/-- `OTHER_SECTION_HEADER`. -/
def otherSectionHeader : String := "Other"

def projectSectionHeader (key : Option String) : String :=
  match (key.map fun key => trim key.toList).filter fun key => !key.isEmpty with
  | none => otherSectionHeader
  | some trimmed =>
    String.ofList (((slashParts trimmed).reverse.find? fun part => !part.isEmpty).getD trimmed)

/-! ## The natural comparison -/

/-- `take_digits`: a run of digits and what follows it. -/
def takeDigits (text : List Char) : List Char × List Char := text.span Char.isDigit

def compareDigitRuns (lhs rhs : List Char) : Ordering :=
  let left := lhs.dropWhile fun c => c = '0'
  let right := rhs.dropWhile fun c => c = '0'
  ((compare left.length right.length).then (compare left right)).then (compare lhs.length rhs.length)

/-- `natural_compare`, over at most `fuel` steps; each reads a character
of both texts at least. -/
def naturalCompareWithin (lower : Char → Char) : (fuel : Nat) → List Char → List Char → Ordering
  | _, [], rhs => compare false !rhs.isEmpty
  | _, _ :: _, [] => .gt
  | 0, _ :: _, _ :: _ => .eq
  | fuel + 1, a :: lhs, b :: rhs =>
    if a.isDigit && b.isDigit then
      let (runLeft, restLeft) := takeDigits (a :: lhs)
      let (runRight, restRight) := takeDigits (b :: rhs)
      (compareDigitRuns runLeft runRight).then (naturalCompareWithin lower fuel restLeft restRight)
    else (compare (lower a) (lower b)).then (naturalCompareWithin lower fuel lhs rhs)

def naturalCompare (lower : Char → Char) (lhs rhs : String) : Ordering :=
  naturalCompareWithin lower lhs.length lhs.toList rhs.toList

/-- `section_ordering`: named projects by their header, then by their key;
the keyless bucket last. -/
def sectionOrdering (lower : Char → Char) : Option String → Option String → Ordering
  | none, none => .eq
  | none, some _ => .gt
  | some _, none => .lt
  | some left, some right =>
    (naturalCompare lower (projectSectionHeader (some left)) (projectSectionHeader (some right))).then
      (naturalCompare lower left right)

/-! ## The order of the tabs -/

def tabProjectKey (tab : TabId) (session : Session) (paneKey : PaneId → Option String) : Option String :=
  match session.tabs.find? fun candidate => candidate.id = tab with
  | none => none
  | some tab => (tab.activePane.bind paneKey).or (tab.allPaneIds.findSome? paneKey)

/-- One element of `bucketed_by_project`: into its bucket, or a bucket of
its own. -/
def bucketed (projectKey : TabId → Option String) (sections : List (Option String × List TabId))
    (tab : TabId) : List (Option String × List TabId) :=
  let bucket := normalizedProjectKey (projectKey tab)
  match sections.findIdx? fun entry => entry.1 = bucket with
  | some index => sections.modify index fun entry => (entry.1, entry.2 ++ [tab])
  | none => sections ++ [(bucket, [tab])]

def projectGroupedTabOrder (lower : Char → Char) (tabs : List TabId)
    (projectKey : TabId → Option String) : List TabId :=
  let sections := tabs.foldl (bucketed projectKey) []
  (sections.mergeSort fun a b => (sectionOrdering lower a.1 b.1).isLE).flatMap Prod.snd

/-- `neighbour`: the element after a target, else the one before it. -/
def tabNeighbour (target : TabId) (list : List TabId) : Option TabId :=
  match list.findIdx? fun tab => tab = target with
  | none => none
  | some index => list[index + 1]?.or (if index = 0 then none else list[index - 1]?)

def successorAfterClose (closing : TabId) (displayOrder : List TabId)
    (projectKey : TabId → Option String) (focusHistory : List TabId) : Option TabId :=
  match displayOrder.findIdx? fun tab => tab = closing with
  | none => none
  | some closingIndex =>
    let survivors := displayOrder.filter fun tab => tab ≠ closing
    if survivors.isEmpty then none
    else
      let recent := focusHistory.find? fun tab => tab ≠ closing && survivors.contains tab
      let bucket := normalizedProjectKey (projectKey closing)
      let siblings := displayOrder.filter fun tab => normalizedProjectKey (projectKey tab) = bucket
      recent.or ((tabNeighbour closing siblings).or ((tabNeighbour closing displayOrder).or
        survivors[min closingIndex (survivors.length - 1)]?))

end SlopDesk.Tree
