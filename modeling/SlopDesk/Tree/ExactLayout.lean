/-
SlopDesk.Tree.ExactLayout — the partition of a split tree in exact arithmetic
(`slopdesk-tree/src/split_layout.rs`).

The numbers are those of an ordered field, so there is nothing that is not
finite. §1 rectangles and trees. §2 the partition. §3 the seams. §4 the
partition child by child, which is what is proved about. §5 the splits of a
tree, each with its rectangle.
-/
import Mathlib.Algebra.BigOperators.Group.List.Basic
import Mathlib.Algebra.Order.Field.Basic
import Mathlib.Tactic.Ring
import SlopDesk.Tree.SplitTree

namespace SlopDesk.Tree.Exact

variable {K : Type} [Field K] [LinearOrder K]

/-! ## §1 Rectangles and trees -/

structure Rect (K : Type) where
  x : K
  y : K
  width : K
  height : K
  deriving DecidableEq

def axisLength (rect : Rect K) : SplitAxis → K
  | .horizontal => rect.width
  | .vertical => rect.height

def axisOrigin (rect : Rect K) : SplitAxis → K
  | .horizontal => rect.x
  | .vertical => rect.y

def subRect (rect : Rect K) (axis : SplitAxis) (origin extent : K) : Rect K :=
  match axis with
  | .horizontal => ⟨origin, rect.y, extent, rect.height⟩
  | .vertical => ⟨rect.x, origin, rect.width, extent⟩

def trailingEdge (rect : Rect K) : SplitAxis → K
  | .horizontal => rect.x + rect.width
  | .vertical => rect.y + rect.height

inductive SplitWeight (K : Type) where
  | flex (weight : K)
  | fixed (points : K)
  deriving DecidableEq

/-- `SplitWeight::flex`. -/
def SplitWeight.flexShare : SplitWeight K → Option K
  | .flex weight => some weight
  | .fixed _ => none

/-- `SplitNode`, a child with its weight in front. -/
inductive SplitNode (K : Type) where
  | leaf (id : PaneId)
  | split (id : SplitNodeId) (axis : SplitAxis) (children : List (SplitWeight K × SplitNode K))

abbrev WeightedChild (K : Type) := SplitWeight K × SplitNode K

/-! ## §2 The partition -/

/-- What the first pass of `extents` has found. -/
structure Reserved (K : Type) where
  bands : List (Option K)
  fixedTotal : K
  flexSum : K
  flexCount : Nat

def Reserved.take (total : K) (r : Reserved K) (child : WeightedChild K) : Reserved K :=
  match child.1 with
  | .fixed points =>
    let remaining := max (total - r.fixedTotal) 0
    let extent := min (max points 0) remaining
    { r with bands := r.bands ++ [some extent], fixedTotal := r.fixedTotal + extent }
  | .flex weight =>
    { r with bands := r.bands ++ [none], flexSum := r.flexSum + max weight 0, flexCount := r.flexCount + 1 }

def Reserved.all (children : List (WeightedChild K)) (total : K) : Reserved K :=
  children.foldl (Reserved.take total) ⟨[], 0, 0, 0⟩

/-- `extents`: each child's length along the axis. -/
def extents (children : List (WeightedChild K)) (total : K) : List K :=
  let r := Reserved.all children total
  let flexBudget := max (total - r.fixedTotal) 0
  (children.zip r.bands).map fun (child, band) =>
    match child.1 with
    | .fixed _ => band.getD 0
    | .flex weight =>
      if 0 < r.flexSum then flexBudget * max weight 0 / r.flexSum
      else if 0 < r.flexCount then flexBudget / r.flexCount
      else 0

/-- The un-floored rectangles of the children, from `cursor` on. -/
def childRects (rect : Rect K) (axis : SplitAxis) (cursor : K) : List K → List (Rect K)
  | [] => []
  | extent :: rest => subRect rect axis cursor extent :: childRects rect axis (cursor + extent) rest

/-! ## §3 The seams -/

/-- `MIN_WEIGHT`. -/
def minWeight : K := 1 / 20

/-- `DEFAULT_MIN_LEAF`, along an axis. -/
def minLeaf : SplitAxis → K
  | .horizontal => 160
  | .vertical => 120

structure Divider (K : Type) where
  split : SplitNodeId
  childIndex : Nat
  axis : SplitAxis
  rect : Rect K
  parentSpan : K
  flexSum : K
  leadingWeight : K
  trailingWeight : K
  deriving DecidableEq

namespace Divider

def weightDelta (d : Divider K) (pixelIncrement : K) : K :=
  if d.parentSpan ≤ 0 ∨ d.flexSum ≤ 0 then 0 else pixelIncrement / d.parentSpan * d.flexSum

/-- The weight at the pixel floor. -/
def floorWeight (d : Divider K) : K := max (minLeaf d.axis / d.parentSpan * d.flexSum) minWeight

def clampedLeadingWeight (d : Divider K) (proposed : K) : K :=
  if d.parentSpan ≤ 0 ∨ d.flexSum ≤ 0 then proposed
  else
    let pairSum := d.leadingWeight + d.trailingWeight
    let lower := min d.floorWeight d.leadingWeight
    let upper := max (pairSum - d.floorWeight) d.leadingWeight
    min (max proposed lower) upper

end Divider

def dividerFlexSum (children : List (WeightedChild K)) : K :=
  let weights := children.filterMap fun child => child.1.flexShare
  let sum := (weights.map (max · 0)).sum
  if 0 < sum then sum else if 0 < weights.length then weights.length else 1

/-- A handle band of `thickness` centred on `seam`. -/
def handleRect (seam : K) (axis : SplitAxis) (parent : Rect K) (thickness : K) : Rect K :=
  match axis with
  | .horizontal => ⟨seam - thickness / 2, parent.y, thickness, parent.height⟩
  | .vertical => ⟨parent.x, seam - thickness / 2, parent.width, thickness⟩

/-- The seams between the children from `index` on. -/
def seamsFrom (id : SplitNodeId) (axis : SplitAxis) (rect : Rect K) (thickness flexSum : K) (index : Nat) :
    List (WeightedChild K) → List (Rect K) → List (Divider K)
  | leading :: trailing :: children, leadingRect :: trailingRect :: rects =>
    { split := id, childIndex := index, axis := axis
      rect := handleRect (trailingEdge leadingRect axis) axis rect thickness
      parentSpan := axisLength rect axis, flexSum := flexSum
      leadingWeight := leading.1.flexShare.getD 0, trailingWeight := trailing.1.flexShare.getD 0 } ::
      seamsFrom id axis rect thickness flexSum (index + 1) (trailing :: children) (trailingRect :: rects)
  | _, _ => []

mutual

def collectDividers (thickness : K) (rect : Rect K) : SplitNode K → List (Divider K)
  | .leaf _ => []
  | .split id axis children =>
    let rects := childRects rect axis (axisOrigin rect axis) (extents children (axisLength rect axis))
    seamsFrom id axis rect thickness (dividerFlexSum children) 0 children rects ++
      collectAll thickness rects children

def collectAll (thickness : K) (rects : List (Rect K)) : List (WeightedChild K) → List (Divider K)
  | [] => []
  | (_, node) :: children =>
    match rects with
    | [] => []
    | rect :: rects => collectDividers thickness rect node ++ collectAll thickness rects children

end

def dividers (root : SplitNode K) (rect : Rect K) (thickness : K) : List (Divider K) :=
  collectDividers thickness rect root

/-- The children of a seam with other weights. -/
def reweighed (children : List (WeightedChild K)) (index : Nat) (leading trailing : K) : List (WeightedChild K) :=
  (children.modify index fun child => (.flex leading, child.2)).modify (index + 1) fun child =>
    (.flex trailing, child.2)

/-! ## §4 The partition, child by child -/

/-- The fixed points a list of children takes behind `used`. -/
def usedAfter (total used : K) : List (WeightedChild K) → K
  | [] => used
  | (.fixed points, _) :: rest => usedAfter total (used + min (max points 0) (max (total - used) 0)) rest
  | (.flex _, _) :: rest => usedAfter total used rest

/-- The lengths when a flex child of weight `w` gets `share w`. -/
def lengthsFrom (share : K → K) (total used : K) : List (WeightedChild K) → List K
  | [] => []
  | (.fixed points, _) :: rest =>
    let extent := min (max points 0) (max (total - used) 0)
    extent :: lengthsFrom share total (used + extent) rest
  | (.flex weight, _) :: rest => share weight :: lengthsFrom share total used rest

/-- The flex weights, the negative ones as nothing. -/
def flexWeights (children : List (WeightedChild K)) : List K :=
  (children.filterMap fun child => child.1.flexShare).map (max · 0)

/-- What the fixed children leave. -/
def budget (children : List (WeightedChild K)) (total : K) : K := max (total - usedAfter total 0 children) 0

/-- The share of a weight. -/
def share (children : List (WeightedChild K)) (total : K) (weight : K) : K :=
  if 0 < (flexWeights children).sum then budget children total * max weight 0 / (flexWeights children).sum
  else if 0 < (flexWeights children).length then budget children total / (flexWeights children).length
  else 0

theorem take_foldl (total : K) (children : List (WeightedChild K)) (r : Reserved K) :
    (children.foldl (Reserved.take total) r).fixedTotal = usedAfter total r.fixedTotal children ∧
      (children.foldl (Reserved.take total) r).flexSum = r.flexSum + (flexWeights children).sum ∧
      (children.foldl (Reserved.take total) r).flexCount = r.flexCount + (flexWeights children).length := by
  induction children generalizing r with
  | nil => simp [usedAfter, flexWeights]
  | cons child rest ih =>
    obtain ⟨weight, node⟩ := child
    rw [List.foldl_cons]
    obtain ⟨hfixed, hsum, hcount⟩ := ih (Reserved.take total r (weight, node))
    rw [hfixed, hsum, hcount]
    cases weight with
    | fixed points => exact ⟨rfl, rfl, rfl⟩
    | flex w =>
      refine ⟨rfl, ?_, ?_⟩
      · simp [Reserved.take, flexWeights, SplitWeight.flexShare, add_assoc]
      · simp [Reserved.take, flexWeights, SplitWeight.flexShare]
        omega

theorem zip_bands (total : K) (children : List (WeightedChild K)) (r : Reserved K) (share : K → K) :
    ∃ bands, (children.foldl (Reserved.take total) r).bands = r.bands ++ bands ∧
      (children.zip bands).map (fun (child, band) =>
        match child.1 with
        | .fixed _ => band.getD 0
        | .flex weight => share weight) = lengthsFrom share total r.fixedTotal children := by
  induction children generalizing r with
  | nil => exact ⟨[], by simp, rfl⟩
  | cons child rest ih =>
    obtain ⟨weight, node⟩ := child
    obtain ⟨bands, hbands, hmap⟩ := ih (Reserved.take total r (weight, node))
    rw [List.foldl_cons, hbands]
    cases weight with
    | fixed points =>
      refine ⟨some (min (max points 0) (max (total - r.fixedTotal) 0)) :: bands, by simp [Reserved.take], ?_⟩
      rw [List.zip_cons_cons, List.map_cons, hmap]
      rfl
    | flex w =>
      refine ⟨none :: bands, by simp [Reserved.take], ?_⟩
      rw [List.zip_cons_cons, List.map_cons, hmap]
      rfl

/-- The two passes are one, when the shares are known. -/
theorem extents_eq (children : List (WeightedChild K)) (total : K) :
    extents children total = lengthsFrom (share children total) total 0 children := by
  obtain ⟨hfixed, hsum, hcount⟩ := take_foldl total children ⟨[], 0, 0, 0⟩
  obtain ⟨bands, hbands, hmap⟩ := zip_bands total children ⟨[], 0, 0, 0⟩ (share children total)
  rw [← hmap, extents, Reserved.all]
  dsimp only
  rw [hbands, hfixed, hsum, hcount, List.nil_append]
  simp only [zero_add]
  rfl

variable {children : List (WeightedChild K)} {total : K}

theorem budget_nonneg : 0 ≤ budget children total := le_max_right _ _

theorem lengthsFrom_sum (share : K → K) (total used : K) (children : List (WeightedChild K)) :
    (lengthsFrom share total used children).sum =
      usedAfter total used children - used + ((children.filterMap fun child => child.1.flexShare).map share).sum := by
  induction children generalizing used with
  | nil => simp [lengthsFrom, usedAfter]
  | cons child rest ih =>
    obtain ⟨weight, node⟩ := child
    cases weight with
    | fixed points =>
      simp only [lengthsFrom, List.sum_cons, ih, usedAfter, SplitWeight.flexShare, List.filterMap_cons_none]
      ring
    | flex w =>
      simp only [lengthsFrom, List.sum_cons, ih, usedAfter, SplitWeight.flexShare, List.filterMap_cons,
        List.map_cons]
      ring

theorem lengthsFrom_nonneg {share : K → K} (hshare : ∀ w, 0 ≤ share w) (total used : K)
    (children : List (WeightedChild K)) : ∀ extent ∈ lengthsFrom share total used children, 0 ≤ extent := by
  induction children generalizing used with
  | nil => simp [lengthsFrom]
  | cons child rest ih =>
    obtain ⟨weight, node⟩ := child
    cases weight with
    | fixed points =>
      rw [lengthsFrom, List.forall_mem_cons]
      exact ⟨le_min (le_max_right _ _) (le_max_right _ _), ih _⟩
    | flex w =>
      rw [lengthsFrom, List.forall_mem_cons]
      exact ⟨hshare w, ih _⟩

theorem length_lengthsFrom (share : K → K) (total used : K) (children : List (WeightedChild K)) :
    (lengthsFrom share total used children).length = children.length := by
  induction children generalizing used with
  | nil => rfl
  | cons child rest ih =>
    obtain ⟨weight, node⟩ := child
    cases weight <;> simp [lengthsFrom, ih]

theorem length_extents : (extents children total).length = children.length := by
  rw [extents_eq, length_lengthsFrom]

/-! ## §5 Tiles -/

/-- A split and where it is. -/
structure PlacedSplit (K : Type) where
  id : SplitNodeId
  axis : SplitAxis
  children : List (WeightedChild K)
  rect : Rect K

namespace PlacedSplit

def span (s : PlacedSplit K) : K := axisLength s.rect s.axis
def rects (s : PlacedSplit K) : List (Rect K) :=
  childRects s.rect s.axis (axisOrigin s.rect s.axis) (extents s.children s.span)
def seams (s : PlacedSplit K) (thickness : K) : List (Divider K) :=
  seamsFrom s.id s.axis s.rect thickness (dividerFlexSum s.children) 0 s.children s.rects

end PlacedSplit

mutual

/-- The splits of a tree, in pre-order. -/
def splits (rect : Rect K) : SplitNode K → List (PlacedSplit K)
  | .leaf _ => []
  | .split id axis children =>
    let placed : PlacedSplit K := ⟨id, axis, children, rect⟩
    placed :: splitsAll placed.rects children

def splitsAll (rects : List (Rect K)) : List (WeightedChild K) → List (PlacedSplit K)
  | [] => []
  | (_, node) :: children =>
    match rects with
    | [] => []
    | rect :: rects => splits rect node ++ splitsAll rects children

end

mutual

theorem collectDividers_eq (thickness : K) (rect : Rect K) :
    ∀ node : SplitNode K, collectDividers thickness rect node = (splits rect node).flatMap (·.seams thickness)
  | .leaf _ => rfl
  | .split id axis children => by
    rw [collectDividers, splits, List.flatMap_cons, ← collectAll_eq thickness _ children]
    rfl

theorem collectAll_eq (thickness : K) (rects : List (Rect K)) :
    ∀ children : List (WeightedChild K),
      collectAll thickness rects children = (splitsAll rects children).flatMap (·.seams thickness)
  | [] => rfl
  | (_, node) :: children => by
    cases rects with
    | nil => rfl
    | cons rect rects =>
      rw [collectAll, splitsAll, List.flatMap_append, collectDividers_eq thickness rect node,
        collectAll_eq thickness rects children]

end

/-- The rectangle has no negative length. -/
def Proper (rect : Rect K) : Prop := 0 ≤ rect.width ∧ 0 ≤ rect.height

theorem proper_childRects {rect : Rect K} (hrect : Proper rect) (axis : SplitAxis) {lengths : List K}
    (h : ∀ extent ∈ lengths, 0 ≤ extent) (cursor : K) : ∀ child ∈ childRects rect axis cursor lengths, Proper child := by
  induction lengths generalizing cursor with
  | nil => simp [childRects]
  | cons extent rest ih =>
    rw [List.forall_mem_cons] at h
    rw [childRects, List.forall_mem_cons]
    refine ⟨?_, ih h.2 _⟩
    cases axis
    · exact ⟨h.1, hrect.2⟩
    · exact ⟨hrect.1, h.1⟩

omit [LinearOrder K] in
theorem origin_subRect (rect : Rect K) (axis : SplitAxis) (origin extent : K) :
    axisOrigin (subRect rect axis origin extent) axis = origin ∧
      axisLength (subRect rect axis origin extent) axis = extent ∧
      trailingEdge (subRect rect axis origin extent) axis = origin + extent := by
  cases axis <;> exact ⟨rfl, rfl, rfl⟩

omit [LinearOrder K] in
/-- Each rectangle begins where the lengths before it end. -/
theorem getElem?_childRects (rect : Rect K) (axis : SplitAxis) (cursor : K) (lengths : List K) (i : Nat) :
    (childRects rect axis cursor lengths)[i]? =
      lengths[i]?.map fun extent => subRect rect axis (cursor + (lengths.take i).sum) extent := by
  induction lengths generalizing cursor i with
  | nil => rfl
  | cons extent rest ih =>
    cases i with
    | zero => simp [childRects]
    | succ i =>
      rw [childRects, List.getElem?_cons_succ, ih, List.getElem?_cons_succ, List.take_succ_cons, List.sum_cons,
        add_assoc]

/-- Where the child at `i` ends. -/
def PlacedSplit.edge (s : PlacedSplit K) (children : List (WeightedChild K)) (i : Nat) : K :=
  axisOrigin s.rect s.axis + ((extents children s.span).take (i + 1)).sum

theorem rect_at {s : PlacedSplit K} {i : Nat} {rect : Rect K} (h : s.rects[i]? = some rect) :
    axisOrigin rect s.axis = axisOrigin s.rect s.axis + ((extents s.children s.span).take i).sum ∧
      trailingEdge rect s.axis = s.edge s.children i := by
  rw [PlacedSplit.rects, getElem?_childRects] at h
  obtain ⟨extent, hextent, rfl⟩ := Option.map_eq_some_iff.mp h
  obtain ⟨horigin, _, hedge⟩ := origin_subRect s.rect s.axis
    (axisOrigin s.rect s.axis + ((extents s.children s.span).take i).sum) extent
  refine ⟨horigin, ?_⟩
  rw [hedge, PlacedSplit.edge, List.take_add_one, List.sum_append, hextent]
  simp [add_assoc]

omit [LinearOrder K] in
theorem lengths_childRects (rect : Rect K) (axis : SplitAxis) (cursor : K) (lengths : List K) :
    (childRects rect axis cursor lengths).map (axisLength · axis) = lengths := by
  induction lengths generalizing cursor with
  | nil => rfl
  | cons extent rest ih => rw [childRects, List.map_cons, ih, (origin_subRect rect axis cursor extent).2.1]

end SlopDesk.Tree.Exact
