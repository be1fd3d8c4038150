/-
SlopDesk.Tree.Layout — where the panes of a tree are, and which one is
next to which (`slopdesk-tree/src/split_layout.rs`, `geometry.rs` and
`focus.rs`).

A tree is solved into one rectangle a pane; the neighbour of a pane in a
direction is read off the rectangles. Only the four directions on screen
are here: the closing of a pane asks for nothing else.
-/
import SlopDesk.Tree.SplitTree

namespace SlopDesk.Tree

open SlopDesk.Base

/-! ## Rectangles -/

structure Size where
  width : F64
  height : F64

/-- `Size::ZERO`. -/
def Size.zero : Size := ⟨F64.zero, F64.zero⟩

/-- `Rect`, its origin at the top left. -/
structure Rect where
  x : F64
  y : F64
  size : Size

namespace Rect

def xywh (x y width height : F64) : Rect := ⟨x, y, ⟨width, height⟩⟩

def minX (r : Rect) : F64 := r.x

def minY (r : Rect) : F64 := r.y

def maxX (r : Rect) : F64 := r.x.add r.size.width

def maxY (r : Rect) : F64 := r.y.add r.size.height

def midX (r : Rect) : F64 := r.x.add (r.size.width.div F64.two)

def midY (r : Rect) : F64 := r.y.add (r.size.height.div F64.two)

end Rect

/-! ## Solving a tree -/

/-- `SolvedLayout`: every pane's rectangle, in id order. -/
abbrev SolvedLayout := BTreeMap PaneId Rect

def axisLength (rect : Rect) : SplitAxis → F64
  | .horizontal => rect.size.width
  | .vertical => rect.size.height

def axisOrigin (rect : Rect) : SplitAxis → F64
  | .horizontal => rect.minX
  | .vertical => rect.minY

def subRect (rect : Rect) (axis : SplitAxis) (origin extent : F64) : Rect :=
  match axis with
  | .horizontal => .xywh origin rect.minY extent rect.size.height
  | .vertical => .xywh rect.minX origin rect.size.width extent

def clampLeaf (rect : Rect) (minLeaf : Size) : Rect :=
  .xywh (if rect.minX.isFinite then rect.minX else F64.zero)
    (if rect.minY.isFinite then rect.minY else F64.zero)
    (if rect.size.width.isFinite then rect.size.width.max minLeaf.width else minLeaf.width)
    (if rect.size.height.isFinite then rect.size.height.max minLeaf.height else minLeaf.height)

/-- What the first pass of `extents` has found: the fixed extents reserved
so far, child by child, their total, and the flex shares' total and
count. -/
structure Reserved where
  bands : List (Option F64) := []
  fixedTotal : F64 := F64.zero
  flexSum : F64 := F64.zero
  flexCount : Nat := 0

/-- One child of the first pass. -/
def Reserved.take (total : F64) (r : Reserved) (child : WeightedChild) : Reserved :=
  match child.weight with
  | .fixed points =>
    let remaining := (total.sub r.fixedTotal).max F64.zero
    let extent := (points.max F64.zero).min remaining
    { r with bands := r.bands ++ [some extent], fixedTotal := r.fixedTotal.add extent }
  | .flex weight =>
    { r with bands := r.bands ++ [none], flexSum := r.flexSum.add (weight.max F64.zero),
             flexCount := r.flexCount + 1 }

/-- `extents`: each child's length along the axis. -/
def extents (children : List WeightedChild) (total : F64) : List F64 :=
  let r := children.foldl (Reserved.take total) {}
  let flexBudget := (total.sub r.fixedTotal).max F64.zero
  (children.zip r.bands).map fun (child, band) =>
    match child.weight with
    | .fixed _ => band.getD F64.zero
    | .flex weight =>
      if F64.zero.lt r.flexSum then (flexBudget.mul (weight.max F64.zero)).div r.flexSum
      else if r.flexCount > 0 then flexBudget.div (F64.ofNat r.flexCount)
      else F64.zero

mutual

def place (minLeaf : Size) (rect : Rect) (into : SolvedLayout) : SplitNode → SolvedLayout
  | .leaf id => into.insert id (clampLeaf rect minLeaf)
  | .split _ axis children =>
    placeAll minLeaf rect axis (axisOrigin rect axis) (extents children (axisLength rect axis)) into
      children

/-- The children of a split, one after the other from `cursor` on. -/
def placeAll (minLeaf : Size) (rect : Rect) (axis : SplitAxis) (cursor : F64) (lengths : List F64)
    (into : SolvedLayout) : List WeightedChild → SolvedLayout
  | [] => into
  | ⟨_, node⟩ :: rest =>
    match lengths with
    | [] => into
    | extent :: lengths =>
      placeAll minLeaf rect axis (cursor.add extent) lengths
        (place minLeaf (subRect rect axis cursor extent) into node) rest

end

def solve (root : SplitNode) (rect : Rect) (minLeaf : Size) : SolvedLayout :=
  place minLeaf rect ∅ root

mutual

theorem place_mem :
    ∀ node, pane ∈ place minLeaf rect into node → pane ∈ into ∨ pane ∈ node.allPaneIds
  | .leaf id, h => by
    rw [place, Std.ExtTreeMap.mem_insert] at h
    rcases h with h | h
    · exact .inr (by simpa [eq_comm] using Std.compare_eq_iff_eq.mp h)
    · exact .inl h
  | .split _ _ children, h => by
    rw [place] at h
    rw [SplitNode.allPaneIds_split]
    exact placeAll_mem children h

theorem placeAll_mem {axis : SplitAxis} {cursor : F64} {lengths : List F64} :
    ∀ children : List WeightedChild, pane ∈ placeAll minLeaf rect axis cursor lengths into children →
      pane ∈ into ∨ pane ∈ children.flatMap fun child => child.node.allPaneIds
  | [], h => .inl h
  | ⟨_, node⟩ :: rest, h => by
    cases lengths with
    | nil => exact .inl h
    | cons extent lengths =>
      rw [List.flatMap_cons, List.mem_append]
      rcases placeAll_mem rest h with hinto | hrest
      · exact (place_mem node hinto).imp id .inl
      · exact .inr (.inr hrest)

end

theorem solve_mem {root : SplitNode} (h : pane ∈ solve root rect minLeaf) : pane ∈ root.allPaneIds :=
  (place_mem root h).resolve_left Std.ExtTreeMap.not_mem_empty

/-! ## Moving by what is on screen -/

/-- The directional part of `FocusDirection`. -/
inductive FocusDirection where
  | left
  | right
  | up
  | down

/-- `EPSILON`: `0.5`. -/
def epsilon : F64 := ⟨0x3FE0000000000000⟩

def isOnRequestedSide (candidate source : Rect) : FocusDirection → Bool
  | .left => candidate.midX.lt (source.minX.add epsilon)
  | .right => (source.maxX.sub epsilon).lt candidate.midX
  | .up => candidate.midY.lt (source.minY.add epsilon)
  | .down => (source.maxY.sub epsilon).lt candidate.midY

def crossAxisOverlap (candidate source : Rect) : FocusDirection → F64
  | .left | .right =>
    ((candidate.maxY.min source.maxY).sub (candidate.minY.max source.minY)).max F64.zero
  | .up | .down =>
    ((candidate.maxX.min source.maxX).sub (candidate.minX.max source.minX)).max F64.zero

def axialDistance (candidate source : Rect) : FocusDirection → F64
  | .left => (source.minX.sub candidate.maxX).max F64.zero
  | .right => (candidate.minX.sub source.maxX).max F64.zero
  | .up => (source.minY.sub candidate.maxY).max F64.zero
  | .down => (candidate.minY.sub source.maxY).max F64.zero

/-- One candidate of `directional_neighbor`. -/
def betterNeighbor (pane : PaneId) (source : Rect) (direction : FocusDirection)
    (best : Option (PaneId × F64 × F64)) (candidate : PaneId × Rect) : Option (PaneId × F64 × F64) :=
  if candidate.1 = pane || !isOnRequestedSide candidate.2 source direction then best
  else
    let overlap := crossAxisOverlap candidate.2 source direction
    if overlap.le F64.zero then best
    else
      let distance := axialDistance candidate.2 source direction
      match best with
      | none => some (candidate.1, overlap, distance)
      | some (_, bestOverlap, bestDistance) =>
        if (bestOverlap.add epsilon).lt overlap ||
            ((overlap.sub bestOverlap).abs.le epsilon && distance.lt bestDistance) then
          some (candidate.1, overlap, distance)
        else best

/-- `neighbor`, in a direction on screen. -/
def neighbor (pane : PaneId) (direction : FocusDirection) (solved : SolvedLayout) : Option PaneId :=
  match solved[pane]? with
  | none => none
  | some source =>
    (solved.toList.foldl (betterNeighbor pane source direction) none).map fun best => best.1

theorem betterNeighbor_cases (pane : PaneId) (source : Rect) (direction : FocusDirection)
    (best : Option (PaneId × F64 × F64)) (candidate : PaneId × Rect) :
    betterNeighbor pane source direction best candidate = best ∨
      ∃ measure, betterNeighbor pane source direction best candidate = some (candidate.1, measure) := by
  unfold betterNeighbor
  split
  · exact .inl rfl
  · grind

theorem betterNeighbor_fold {source : Rect}
    {candidates : List (PaneId × Rect)} {best : Option (PaneId × F64 × F64)} {found : PaneId × F64 × F64}
    (h : candidates.foldl (betterNeighbor pane source direction) best = some found) :
    best = some found ∨ found.1 ∈ candidates.map Prod.fst := by
  induction candidates generalizing best with
  | nil => exact .inl h
  | cons candidate rest ih =>
    rcases ih h with hnext | hrest
    · rcases betterNeighbor_cases pane source direction best candidate with hkept | ⟨measure, htaken⟩
      · exact .inl (hkept ▸ hnext)
      · grind
    · exact .inr (List.mem_cons_of_mem _ hrest)

theorem neighbor_mem {found : PaneId} {solved : SolvedLayout}
    (h : neighbor pane direction solved = some found) : found ∈ solved := by
  unfold neighbor at h
  split at h
  · cases h
  · obtain ⟨best, hbest, rfl⟩ := Option.map_eq_some_iff.mp h
    rcases betterNeighbor_fold hbest with hnone | hmem
    · cases hnone
    · grind

end SlopDesk.Tree
