/-
SlopDesk.Tree.SplitTree — the ids of a workspace and the split tree over them.
-/
import Mathlib.Data.Stream.Init
import SlopDesk.Base.BTree
import SlopDesk.Base.Binary64
import SlopDesk.Wire.Codec

/-! # The identities panes, tabs, sessions and splits
are known by (`slopdesk-ids/src/identity.rs`), and the source a minted one
is drawn from.
-/

namespace SlopDesk.Tree

open SlopDesk.Base
open SlopDesk.Wire (RawUuid)

/-- The derived `Ord` of an identity: its bytes. -/
instance : Ord RawUuid := ⟨compareOn RawUuid.bytes⟩

instance : Std.TransOrd RawUuid := inferInstanceAs (Std.TransCmp (compareOn RawUuid.bytes))

instance : Std.LawfulEqOrd RawUuid where
  eq_of_compare := by
    intro a b h
    obtain ⟨bytes, size⟩ := a
    obtain ⟨bytes', size'⟩ := b
    have hbytes : bytes = bytes' := Std.compare_eq_iff_eq.mp h
    subst hbytes
    rfl

abbrev PaneId := RawUuid

abbrev TabId := RawUuid

abbrev SessionId := RawUuid

abbrev SplitNodeId := RawUuid

/-- `IdSource`: what is still to be drawn of each kind. -/
structure IdSource where
  panes : Stream' PaneId
  tabs : Stream' TabId
  sessions : Stream' SessionId
  splits : Stream' SplitNodeId

namespace IdSource

def pane (ids : IdSource) : PaneId × IdSource := (ids.panes.head, { ids with panes := ids.panes.tail })

def tab (ids : IdSource) : TabId × IdSource := (ids.tabs.head, { ids with tabs := ids.tabs.tail })

def session (ids : IdSource) : SessionId × IdSource :=
  (ids.sessions.head, { ids with sessions := ids.sessions.tail })

def split (ids : IdSource) : SplitNodeId × IdSource :=
  (ids.splits.head, { ids with splits := ids.splits.tail })

/-- A source that gives one identity for ever. -/
def always (id : RawUuid) : IdSource := ⟨.const id, .const id, .const id, .const id⟩

end IdSource

end SlopDesk.Tree

/-! # The n-ary split tree a tab is made of
(`slopdesk-tree/src/split_tree.rs`).

A tree is leaves and splits; a split has a divider identity, an axis and
its children in visual order, each with its share of that axis. Every
operation answers a new tree. A function that walks a tree is a pair, one
over a node and one over a list of children, and the list one is followed
by what it is as an operation on lists.
-/

namespace SlopDesk.Tree

open SlopDesk.Base

inductive SplitAxis where
  | horizontal
  | vertical
  deriving DecidableEq

/-- `SplitAxis::from_byte`: any byte but zero is vertical. -/
def SplitAxis.fromByte (byte : UInt8) : SplitAxis := if byte = 0 then .horizontal else .vertical

def SplitAxis.asByte : SplitAxis → UInt8
  | .horizontal => 0
  | .vertical => 1

inductive PaneDropEdge where
  | left
  | right
  | top
  | bottom
  deriving DecidableEq

namespace PaneDropEdge

/-- `from_byte`: an unknown byte docks at the leading edge. -/
def fromByte (byte : UInt8) : PaneDropEdge :=
  match byte with
  | 1 => .right
  | 2 => .top
  | 3 => .bottom
  | _ => .left

def asByte : PaneDropEdge → UInt8
  | .left => 0
  | .right => 1
  | .top => 2
  | .bottom => 3

def axis : PaneDropEdge → SplitAxis
  | .left | .right => .horizontal
  | .top | .bottom => .vertical

def insertsBefore : PaneDropEdge → Bool
  | .left | .top => true
  | .right | .bottom => false

end PaneDropEdge

/-- `MIN_WEIGHT`: `0.05`. -/
def minWeight : F64 := ⟨0x3FA999999999999A⟩

/-- `MAX_DEPTH`. -/
def maxDepth : Nat := 12

inductive SplitWeight where
  | flex (weight : F64)
  | fixed (points : F64)
  deriving DecidableEq

namespace SplitWeight

def default : SplitWeight := .flex F64.one

def repaired : SplitWeight → SplitWeight
  | .flex weight => .flex (if weight.isFinite then weight.max minWeight else minWeight)
  | .fixed points => .fixed (if points.isFinite then points.max F64.zero else F64.zero)

/-- `flex`. -/
def share : SplitWeight → Option F64
  | .flex weight => some weight
  | .fixed _ => none

def value : SplitWeight → F64
  | .flex value | .fixed value => value

def kindByte : SplitWeight → UInt8
  | .flex _ => 0
  | .fixed _ => 1

/-- The derived `PartialEq`. -/
def eq : SplitWeight → SplitWeight → Bool
  | .flex a, .flex b => a.eq b
  | .fixed a, .fixed b => a.eq b
  | _, _ => false

end SplitWeight

mutual

inductive SplitNode where
  | leaf (pane : PaneId)
  | split (id : SplitNodeId) (axis : SplitAxis) (children : List WeightedChild)

structure WeightedChild where
  weight : SplitWeight
  node : SplitNode

end

/-- `WeightedChild::leaf`: a leaf at an equal share. -/
def WeightedChild.leaf (id : PaneId) : WeightedChild := ⟨.flex F64.one, .leaf id⟩

@[simp] theorem WeightedChild.eta (child : WeightedChild) :
    (⟨child.weight, child.node⟩ : WeightedChild) = child := by
  cases child
  rfl

namespace SplitNode

variable {motive : SplitNode → Prop}

/-! ## Trees, one constructor at a time -/

mutual

/-- Induction on a tree: a split holds of what each of its children holds
of. -/
@[elab_as_elim, induction_eliminator]
theorem induct (leaf : ∀ pane, motive (.leaf pane))
    (split : ∀ id axis children, (∀ child ∈ children, motive child.node) →
      motive (.split id axis children)) : ∀ node, motive node
  | .leaf pane => leaf pane
  | .split id axis children => split id axis children (inductAll leaf split children)

theorem inductAll (leaf : ∀ pane, motive (.leaf pane))
    (split : ∀ id axis children, (∀ child ∈ children, motive child.node) →
      motive (.split id axis children)) :
    ∀ children : List WeightedChild, ∀ child ∈ children, motive child.node
  | [], _, h => absurd h List.not_mem_nil
  | ⟨_, node⟩ :: rest, child, h => by
    rcases List.mem_cons.mp h with rfl | h
    · exact induct leaf split node
    · exact inductAll leaf split rest child h

end

mutual

def decEq : (a b : SplitNode) → Decidable (a = b)
  | .leaf p, .leaf q => if h : p = q then isTrue (by rw [h]) else isFalse (by simpa using h)
  | .leaf _, .split .. => isFalse (by simp)
  | .split .., .leaf _ => isFalse (by simp)
  | .split i a cs, .split j b ds =>
    if h : i = j ∧ a = b then
      match decEqAll cs ds with
      | isTrue hc => isTrue (by rw [h.1, h.2, hc])
      | isFalse hc => isFalse (by simp [hc])
    else isFalse (by intro hh; cases hh; simp at h)

def decEqAll : (a b : List WeightedChild) → Decidable (a = b)
  | [], [] => isTrue rfl
  | [], _ :: _ => isFalse (by simp)
  | _ :: _, [] => isFalse (by simp)
  | ⟨v, m⟩ :: cs, ⟨w, n⟩ :: ds =>
    if h : v = w then
      match decEq m n, decEqAll cs ds with
      | isTrue hm, isTrue hc => isTrue (by rw [h, hm, hc])
      | isFalse hm, _ => isFalse (by simp [hm])
      | _, isFalse hc => isFalse (by simp [hc])
    else isFalse (by simp [h])

end

instance : DecidableEq SplitNode := decEq

instance : DecidableEq WeightedChild := fun a b =>
  decidable_of_iff (a.weight = b.weight ∧ a.node = b.node)
    ⟨fun h => by cases a; cases b; simp_all, fun h => by simp [h]⟩

/-- The axis a split runs along. -/
def axis? : SplitNode → Option SplitAxis
  | .leaf _ => none
  | .split _ axis _ => some axis

/-! ## What a tree holds -/

mutual

def allPaneIds : SplitNode → List PaneId
  | .leaf id => [id]
  | .split _ _ children => allPaneIdsOf children

def allPaneIdsOf : List WeightedChild → List PaneId
  | [] => []
  | ⟨_, node⟩ :: rest => allPaneIds node ++ allPaneIdsOf rest

end

@[simp] theorem allPaneIds_leaf (id : PaneId) : allPaneIds (.leaf id) = [id] := rfl

@[simp] theorem allPaneIds_split (id : SplitNodeId) (axis : SplitAxis) (children : List WeightedChild) :
    allPaneIds (.split id axis children) = children.flatMap fun child => child.node.allPaneIds := by
  rw [allPaneIds]
  induction children with
  | nil => rfl
  | cons child rest ih =>
    obtain ⟨weight, node⟩ := child
    simp [allPaneIdsOf, ih]

mutual

def leafCount : SplitNode → Nat
  | .leaf _ => 1
  | .split _ _ children => leafCountOf children

def leafCountOf : List WeightedChild → Nat
  | [] => 0
  | ⟨_, node⟩ :: rest => leafCount node + leafCountOf rest

end

mutual

/-- The depth of the deepest node, a leaf being one deep. -/
def depth : SplitNode → Nat
  | .leaf _ => 1
  | .split _ _ children => 1 + depthOf children

/-- `max().unwrap_or(0)`. -/
def depthOf : List WeightedChild → Nat
  | [] => 0
  | ⟨_, node⟩ :: rest => max (depth node) (depthOf rest)

end

theorem depthOf_le {children : List WeightedChild} {n : Nat} :
    depthOf children ≤ n ↔ ∀ child ∈ children, child.node.depth ≤ n := by
  induction children with
  | nil => simp [depthOf]
  | cons child rest ih =>
    obtain ⟨weight, node⟩ := child
    simp [depthOf, ih]

mutual

def contains (id : PaneId) : SplitNode → Bool
  | .leaf pane => pane = id
  | .split _ _ children => containsAny id children

def containsAny (id : PaneId) : List WeightedChild → Bool
  | [] => false
  | ⟨_, node⟩ :: rest => contains id node || containsAny id rest

end

@[simp] theorem contains_iff {id : PaneId} {node : SplitNode} :
    node.contains id = true ↔ id ∈ node.allPaneIds := by
  induction node with
  | leaf pane => simp [contains, eq_comm]
  | split splitId axis children ih =>
    simp only [contains, allPaneIds_split, List.mem_flatMap]
    induction children with
    | nil => simp [containsAny]
    | cons child rest ihRest =>
      obtain ⟨weight, node⟩ := child
      simp [containsAny, ih ⟨weight, node⟩, ihRest fun child h => ih child (List.mem_cons_of_mem _ h)]

theorem leafCount_eq (node : SplitNode) : node.leafCount = node.allPaneIds.length := by
  induction node with
  | leaf pane => rfl
  | split splitId axis children ih =>
    simp only [leafCount, allPaneIds_split]
    induction children with
    | nil => rfl
    | cons child rest ihRest =>
      obtain ⟨weight, node⟩ := child
      simp [leafCountOf, ih ⟨weight, node⟩, ihRest fun child h => ih child (List.mem_cons_of_mem _ h)]

mutual

def firstLeafId : SplitNode → Option PaneId
  | .leaf id => some id
  | .split _ _ children => firstLeafIdOf children

def firstLeafIdOf : List WeightedChild → Option PaneId
  | [] => none
  | ⟨_, node⟩ :: _ => firstLeafId node

end

mutual

/-- `is_structurally_equal`: the same shape, leaves and weights, whatever
the splits are called. -/
def isStructurallyEqual : SplitNode → SplitNode → Bool
  | .leaf a, .leaf b => a = b
  | .split _ axisA childrenA, .split _ axisB childrenB =>
    axisA = axisB && areStructurallyEqual childrenA childrenB
  | _, _ => false

def areStructurallyEqual : List WeightedChild → List WeightedChild → Bool
  | [], [] => true
  | ⟨weightA, nodeA⟩ :: restA, ⟨weightB, nodeB⟩ :: restB =>
    weightA.eq weightB && isStructurallyEqual nodeA nodeB && areStructurallyEqual restA restB
  | _, _ => false

end

/-- Whether a node is this very leaf. -/
def isLeaf (target : PaneId) : SplitNode → Bool
  | .leaf id => id = target
  | .split .. => false

end SplitNode

/-! ## Shares -/

/-- The sum of the flex shares among these children, and how many there
are. -/
def flexTotal (children : List WeightedChild) : F64 × Nat :=
  children.foldl (fun acc child =>
    match child.weight.share with
    | some weight => (acc.1.add weight, acc.2 + 1)
    | none => acc) (F64.zero, 0)

/-- `insert_weight`: the mean of the flex shares. -/
def insertWeight (children : List WeightedChild) : F64 :=
  let (sum, count) := flexTotal children
  if count = 0 then F64.one else sum.div (F64.ofNat count)

/-- `merge_same_axis`: a child that is a split on this axis is replaced by
its own children. -/
def mergeSameAxis (children : List WeightedChild) (axis : SplitAxis) : List WeightedChild :=
  children.flatMap fun child =>
    match child.node with
    | .split _ childAxis grandchildren => if childAxis = axis then grandchildren else [child]
    | .leaf _ => [child]

/-- `rebalance_flex`: the flex children share their total equally. -/
def rebalanceFlex (children : List WeightedChild) : List WeightedChild :=
  let (sum, count) := flexTotal children
  if count = 0 then children
  else
    let share := (sum.div (F64.ofNat count)).max minWeight
    children.map fun child =>
      match child.weight with
      | .flex _ => ⟨.flex share, child.node⟩
      | .fixed _ => child

/-- The leading share a pair ends up with when `proposed` is asked for:
the proposal, held between the floor and what leaves the other the
floor. -/
def heldShare (pairSum proposed : F64) : F64 :=
  (proposed.max minWeight).min ((pairSum.sub minWeight).max minWeight)

def adjustPair (children : List WeightedChild) (leadingIndex : Nat) (propose : F64 → F64 → F64) :
    List WeightedChild :=
  match children[leadingIndex]?, children[leadingIndex + 1]? with
  | some leading, some trailing =>
    match leading.weight.share, trailing.weight.share with
    | some lead, some trail =>
      let pairSum := lead.add trail
      let newLead := heldShare pairSum (propose lead trail)
      (children.set leadingIndex ⟨.flex newLead, leading.node⟩).set (leadingIndex + 1)
        ⟨.flex (pairSum.sub newLead), trailing.node⟩
    | _, _ => children
  | _, _ => children

namespace SplitNode

/-! ## Insertion -/

mutual

def insertBesideImpl (leaf target : PaneId) (axis : SplitAxis) (before : Bool)
    (freshSplit : SplitNodeId) : SplitNode → SplitNode
  | .leaf id =>
    if id ≠ target then .leaf id
    else .split freshSplit axis
      (if before then [.leaf leaf, .leaf target] else [.leaf target, .leaf leaf])
  | .split id splitAxis children =>
    let direct := children.findIdx? fun child => child.node.isLeaf target
    match if splitAxis = axis then direct else none with
    | some index =>
      .split id splitAxis (children.insertIdx (if before then index else index + 1)
        ⟨.flex (insertWeight children), .leaf leaf⟩)
    | none => .split id splitAxis (insertBesideAll leaf target axis before freshSplit children)

/-- The children that hold the target, each grown; the others as they
are. -/
def insertBesideAll (leaf target : PaneId) (axis : SplitAxis) (before : Bool)
    (freshSplit : SplitNodeId) : List WeightedChild → List WeightedChild
  | [] => []
  | ⟨weight, node⟩ :: rest =>
    ⟨weight, if node.contains target then
        insertBesideImpl leaf target axis before freshSplit node else node⟩ ::
      insertBesideAll leaf target axis before freshSplit rest

end

theorem insertBesideAll_eq (leaf target : PaneId) (axis : SplitAxis) (before : Bool)
    (freshSplit : SplitNodeId) (children : List WeightedChild) :
    insertBesideAll leaf target axis before freshSplit children = children.map fun child =>
      ⟨child.weight, if child.node.contains target then
        insertBesideImpl leaf target axis before freshSplit child.node else child.node⟩ := by
  induction children with
  | nil => rfl
  | cons child rest ih =>
    obtain ⟨weight, node⟩ := child
    simp [insertBesideAll, ih]

def splitting (node : SplitNode) (target : PaneId) (axis : SplitAxis) (newLeaf : PaneId)
    (before : Bool) (freshSplit : SplitNodeId) : Option SplitNode :=
  if node.contains target then some (node.insertBesideImpl newLeaf target axis before freshSplit)
  else none

def insertingBeside (node : SplitNode) (leaf target : PaneId) (axis : SplitAxis) (before : Bool)
    (freshSplit : SplitNodeId) : Option SplitNode :=
  if node.contains target then some (node.insertBesideImpl leaf target axis before freshSplit)
  else none

/-- The whole tree and a leaf, as the two children of a fresh split. -/
def wrapped (node : SplitNode) (leaf : PaneId) (axis : SplitAxis) (before : Bool)
    (freshSplit : SplitNodeId) : SplitNode :=
  .split freshSplit axis
    (if before then [.leaf leaf, ⟨.flex F64.one, node⟩] else [⟨.flex F64.one, node⟩, .leaf leaf])

def insertingAtRoot (node : SplitNode) (leaf : PaneId) (axis : SplitAxis) (before : Bool)
    (freshSplit : SplitNodeId) : SplitNode :=
  match node with
  | .split id splitAxis children =>
    if splitAxis = axis then
      .split id splitAxis (children.insertIdx (if before then 0 else children.length)
        ⟨.flex (insertWeight children), .leaf leaf⟩)
    else wrapped node leaf axis before freshSplit
  | .leaf _ => wrapped node leaf axis before freshSplit

/-! ## Removal -/

/-- What a split becomes when these are its children: nothing, the only
one of them, or a split whose flex children share equally. -/
def collapsed (id : SplitNodeId) (axis : SplitAxis) : List WeightedChild → Option SplitNode
  | [] => none
  | [child] => some child.node
  | merged => some (.split id axis (rebalanceFlex merged))

mutual

def removeImpl (target : PaneId) : SplitNode → Option SplitNode
  | .leaf id => if id ≠ target then some (.leaf id) else none
  | .split id axis children => collapsed id axis (mergeSameAxis (survivors target children) axis)

/-- The children a removal leaves, pruned. -/
def survivors (target : PaneId) : List WeightedChild → List WeightedChild
  | [] => []
  | ⟨weight, node⟩ :: rest =>
    if node.isLeaf target then survivors target rest
    else
      match removeImpl target node with
      | some pruned => ⟨weight, pruned⟩ :: survivors target rest
      | none => survivors target rest

end

theorem removeImpl_of_isLeaf {target : PaneId} {node : SplitNode} (h : node.isLeaf target = true) :
    node.removeImpl target = none := by
  cases node with
  | leaf id => simp_all [isLeaf, removeImpl]
  | split => simp [isLeaf] at h

theorem survivors_eq (target : PaneId) (children : List WeightedChild) :
    survivors target children = children.filterMap fun child =>
      (child.node.removeImpl target).map fun pruned => ⟨child.weight, pruned⟩ := by
  induction children with
  | nil => rfl
  | cons child rest ih =>
    obtain ⟨weight, node⟩ := child
    rw [survivors, List.filterMap_cons]
    split
    · rename_i h
      rw [removeImpl_of_isLeaf h, ih]
      rfl
    · cases removeImpl target node with
      | none => exact ih
      | some pruned => simp [ih]

/-- `removing`: nothing when the removal empties the tree. -/
def removing (node : SplitNode) (target : PaneId) : Option SplitNode :=
  if node.contains target then node.removeImpl target else some node

/-! ## Dividers -/

mutual

def mapSplit (splitId : SplitNodeId) (rewrite : List WeightedChild → List WeightedChild) :
    SplitNode → SplitNode
  | .leaf id => .leaf id
  | .split id axis children =>
    if id = splitId then .split id axis (rewrite children)
    else .split id axis (mapSplitAll splitId rewrite children)

def mapSplitAll (splitId : SplitNodeId) (rewrite : List WeightedChild → List WeightedChild) :
    List WeightedChild → List WeightedChild
  | [] => []
  | ⟨weight, node⟩ :: rest =>
    ⟨weight, mapSplit splitId rewrite node⟩ :: mapSplitAll splitId rewrite rest

end

theorem mapSplitAll_eq (splitId : SplitNodeId)
    (rewrite : List WeightedChild → List WeightedChild) (children : List WeightedChild) :
    mapSplitAll splitId rewrite children =
      children.map fun child => ⟨child.weight, child.node.mapSplit splitId rewrite⟩ := by
  induction children with
  | nil => rfl
  | cons child rest ih =>
    obtain ⟨weight, node⟩ := child
    simp [mapSplitAll, ih]

def settingDividerWeight (node : SplitNode) (splitId : SplitNodeId) (leadingIndex : Nat)
    (leadingWeight : F64) : SplitNode :=
  node.mapSplit splitId fun children => adjustPair children leadingIndex fun _ _ => leadingWeight

/-! ## Even shares -/

/-- A flex share made equal; a fixed extent as it is. -/
def evened : SplitWeight → SplitWeight
  | .flex _ => .flex F64.one
  | .fixed points => .fixed points

mutual

def rebalanced : SplitNode → SplitNode
  | .leaf id => .leaf id
  | .split id axis children => .split id axis (rebalancedAll children)

def rebalancedAll : List WeightedChild → List WeightedChild
  | [] => []
  | ⟨weight, node⟩ :: rest => ⟨evened weight, rebalanced node⟩ :: rebalancedAll rest

end

theorem rebalancedAll_eq (children : List WeightedChild) : rebalancedAll children =
      children.map fun child => ⟨evened child.weight, child.node.rebalanced⟩ := by
  induction children with
  | nil => rfl
  | cons child rest ih =>
    obtain ⟨weight, node⟩ := child
    simp [rebalancedAll, ih]

/-! ## Swaps -/

mutual

def mapLeaves (transform : PaneId → PaneId) : SplitNode → SplitNode
  | .leaf id => .leaf (transform id)
  | .split id axis children => .split id axis (mapLeavesAll transform children)

def mapLeavesAll (transform : PaneId → PaneId) : List WeightedChild → List WeightedChild
  | [] => []
  | ⟨weight, node⟩ :: rest => ⟨weight, mapLeaves transform node⟩ :: mapLeavesAll transform rest

end

theorem mapLeavesAll_eq (transform : PaneId → PaneId) (children : List WeightedChild) :
    mapLeavesAll transform children =
      children.map fun child => ⟨child.weight, child.node.mapLeaves transform⟩ := by
  induction children with
  | nil => rfl
  | cons child rest ih =>
    obtain ⟨weight, node⟩ := child
    simp [mapLeavesAll, ih]

/-- The exchange of two panes. -/
def exchanging (a b id : PaneId) : PaneId := if id = a then b else if id = b then a else id

def swapping (node : SplitNode) (a b : PaneId) : SplitNode :=
  if a = b || !node.contains a || !node.contains b then node else node.mapLeaves (exchanging a b)

end SplitNode

end SlopDesk.Tree
