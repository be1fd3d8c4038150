/-
SlopDesk.Tree.Positions — where a pane stands in a tree, and where a
rearrangement puts it.

  §1 Neighbours — two panes next to each other in a split.
  §2 Edges      — a pane along a whole edge of a tree.
  §3 Structure  — trees that differ in the ids of their splits only.
  §4 Paths      — the way down to a pane.
  §5 Dividers   — the weight on the leading side of a divider.
-/
import SlopDesk.Tree.SplitTreeTheorems

namespace SlopDesk.Tree

open SlopDesk.Base

namespace SplitNode

variable {leaf target : PaneId} {axis : SplitAxis} {before : Bool} {fresh : SplitNodeId}
  {node : SplitNode}
variable {other : SplitNode}
variable {children : List WeightedChild} {id : SplitNodeId}

/-! ## §1 Neighbours -/

/-- Two leaves are children of one split along `axis`, the second right
after the first. -/
inductive Adjacent (axis : SplitAxis) (first second : PaneId) : SplitNode → Prop
  | here {id : SplitNodeId} {pre post : List WeightedChild} {w w' : SplitWeight} :
      Adjacent axis first second
        (.split id axis (pre ++ ⟨w, .leaf first⟩ :: ⟨w', .leaf second⟩ :: post))
  | deeper {id : SplitNodeId} {axis' : SplitAxis} {children : List WeightedChild} {child : WeightedChild}
      (hc : child ∈ children) (h : Adjacent axis first second child.node) :
      Adjacent axis first second (.split id axis' children)

/-- A pane stands before or after another along an axis. -/
def Beside (pane target : PaneId) (axis : SplitAxis) (before : Bool) (node : SplitNode) : Prop :=
  if before then node.Adjacent axis pane target else node.Adjacent axis target pane

theorem Beside.deeper {axis' : SplitAxis}
    {child : WeightedChild} (hc : child ∈ children) (h : child.node.Beside leaf target axis before) :
    (SplitNode.split id axis' children).Beside leaf target axis before := by
  cases before with
  | true => exact Adjacent.deeper hc h
  | false => exact Adjacent.deeper hc h

theorem insertBesideImpl_beside (h : target ∈ node.allPaneIds) :
    (node.insertBesideImpl leaf target axis before fresh).Beside leaf target axis before := by
  induction node with
  | leaf id =>
    obtain rfl : target = id := by simpa using h
    rw [insertBesideImpl, if_neg (by simp)]
    cases before with
    | true => exact @Adjacent.here axis leaf target fresh [] [] _ _
    | false => exact @Adjacent.here axis target leaf fresh [] [] _ _
  | split id splitAxis children ih =>
    rw [insertBesideImpl]
    split
    · rename_i index hdirect
      split at hdirect
      · rename_i haxis
        subst haxis
        obtain ⟨pre, child, post, rfl, rfl, hleaf, -⟩ := Position.of_findIdx? hdirect
        obtain ⟨weight, found⟩ := child
        obtain rfl := isLeaf_iff.mp hleaf
        cases before with
        | true =>
          rw [if_pos rfl, Position.insertIdx_cut]
          exact Adjacent.here
        | false =>
          rw [if_neg (by simp), Position.insertIdx_cut_succ]
          exact Adjacent.here
      · cases hdirect
    · rw [allPaneIds_split, List.mem_flatMap] at h
      obtain ⟨child, hc, hmem⟩ := h
      have hgrown := ih child hc hmem
      rw [insertBesideAll_eq]
      refine Beside.deeper (List.mem_map_of_mem hc) ?_
      rw [if_pos (contains_iff.mpr hmem)]
      exact hgrown

/-! ## §2 Edges -/

/-- A pane takes up a whole edge: it is the tree, or the first or the last
child of the outermost split, which is along the axis of that edge. -/
def AtEdge (pane : PaneId) (axis : SplitAxis) (before : Bool) : SplitNode → Prop
  | .leaf id => id = pane
  | .split _ splitAxis children => splitAxis = axis ∧
      (if before then children.head? else children.getLast?).map WeightedChild.node = some (.leaf pane)

theorem insertingAtRoot_atEdge (node : SplitNode) (leaf : PaneId) (axis : SplitAxis) (before : Bool)
    (fresh : SplitNodeId) : (node.insertingAtRoot leaf axis before fresh).AtEdge leaf axis before := by
  have hwrapped : ∀ node : SplitNode, (node.wrapped leaf axis before fresh).AtEdge leaf axis before := by
    intro node
    cases before with
    | true => exact ⟨rfl, rfl⟩
    | false => exact ⟨rfl, rfl⟩
  cases node with
  | leaf id => exact hwrapped _
  | split id splitAxis children =>
    rw [insertingAtRoot]
    split
    · rename_i haxis
      cases before with
      | true => exact ⟨haxis, by simp⟩
      | false => exact ⟨haxis, by simp⟩
    · exact hwrapped _

/-! ## §3 Structure -/

theorem areStructurallyEqual_iff {xs ys : List WeightedChild} :
    areStructurallyEqual xs ys = true ↔ List.Forall₂ (fun x y => x.weight.eq y.weight = true ∧
      isStructurallyEqual x.node y.node = true) xs ys := by
  induction xs generalizing ys with
  | nil => cases ys <;> simp [areStructurallyEqual]
  | cons x rest ih =>
    cases ys with
    | nil => simp [areStructurallyEqual]
    | cons y rest' =>
      obtain ⟨weight, node⟩ := x
      obtain ⟨weight', node'⟩ := y
      simp [areStructurallyEqual, ih, and_assoc]

theorem structural_leaf {pane : PaneId} (h : isStructurallyEqual (.leaf pane) node = true) :
    node = .leaf pane := by
  cases node with
  | leaf id => simpa [isStructurallyEqual, eq_comm] using h
  | split => simp [isStructurallyEqual] at h

theorem structural_split (h : isStructurallyEqual (.split id axis children) node = true) :
    ∃ id' children', node = .split id' axis children' ∧
      List.Forall₂ (fun x y : WeightedChild => isStructurallyEqual x.node y.node = true)
        children children' := by
  cases node with
  | leaf => simp [isStructurallyEqual] at h
  | split id' axis' children' =>
    simp only [isStructurallyEqual, Bool.and_eq_true, decide_eq_true_eq, areStructurallyEqual_iff] at h
    obtain ⟨rfl, hchildren⟩ := h
    exact ⟨id', children', rfl, hchildren.imp fun _ _ h => h.2⟩

theorem Adjacent.structural {first second : PaneId}
    (h : node.Adjacent axis first second) (heq : isStructurallyEqual node other = true) :
    other.Adjacent axis first second := by
  induction h generalizing other with
  | @here id pre post w w' =>
    obtain ⟨id', children', rfl, hall⟩ := structural_split heq
    obtain ⟨pre', rest, -, hrest, rfl⟩ := Position.forall₂_append hall
    obtain ⟨x, rest', hx, hrest', rfl⟩ := List.forall₂_cons_left_iff.mp hrest
    obtain ⟨y, post', hy, -, rfl⟩ := List.forall₂_cons_left_iff.mp hrest'
    obtain ⟨wx, nx⟩ := x
    obtain ⟨wy, ny⟩ := y
    obtain rfl := structural_leaf hx
    obtain rfl := structural_leaf hy
    exact .here
  | @deeper id axis' children child hc h ih =>
    obtain ⟨id', children', rfl, hall⟩ := structural_split heq
    obtain ⟨other, hmem, hsame⟩ := Position.forall₂_mem hall hc
    exact .deeper hmem (ih hsame)

theorem Beside.structural (h : node.Beside leaf target axis before)
    (heq : isStructurallyEqual node other = true) : other.Beside leaf target axis before := by
  cases before with
  | true => exact Adjacent.structural h heq
  | false => exact Adjacent.structural h heq

theorem AtEdge.structural (h : node.AtEdge leaf axis before)
    (heq : isStructurallyEqual node other = true) : other.AtEdge leaf axis before := by
  cases node with
  | leaf id =>
    obtain rfl := structural_leaf heq
    exact h
  | split id splitAxis children =>
    obtain ⟨id', children', rfl, hall⟩ := structural_split heq
    obtain ⟨haxis, hedge⟩ := h
    refine ⟨haxis, ?_⟩
    have hheads : ∀ {xs ys : List WeightedChild}, List.Forall₂ (fun x y : WeightedChild =>
        isStructurallyEqual x.node y.node = true) xs ys →
        xs.head?.map WeightedChild.node = some (.leaf leaf) →
        ys.head?.map WeightedChild.node = some (.leaf leaf) := fun hxs hhead => by
      cases hxs with
      | nil => exact hhead
      | cons hxy _ =>
        rw [List.head?_cons, Option.map_some, Option.some.injEq] at hhead ⊢
        rw [hhead] at hxy
        exact structural_leaf hxy
    cases before with
    | true => exact hheads hall hedge
    | false =>
      have hlast := hheads (List.rel_reverse hall)
      simp only [List.head?_reverse] at hlast
      exact hlast hedge

/-! ## §4 Paths -/

mutual

/-- The way down to a pane, child by child. -/
def pathTo (pane : PaneId) : SplitNode → Option (List Nat)
  | .leaf id => if id = pane then some [] else none
  | .split _ _ children => pathToAny pane 0 children

def pathToAny (pane : PaneId) (index : Nat) : List WeightedChild → Option (List Nat)
  | [] => none
  | ⟨_, node⟩ :: rest =>
    ((pathTo pane node).map fun path => index :: path).or (pathToAny pane (index + 1) rest)

end

/-- Where the leaves are renamed by an involution, the way to a pane is the
way there was to what it was named before. -/
theorem pathTo_mapLeaves {f : PaneId → PaneId} (hf : Function.Involutive f) (pane : PaneId)
    (node : SplitNode) : (node.mapLeaves f).pathTo pane = node.pathTo (f pane) := by
  induction node with
  | leaf id =>
    have hiff : f id = pane ↔ id = f pane := ⟨fun h => h ▸ (hf id).symm, fun h => h ▸ hf pane⟩
    simp only [mapLeaves, pathTo, hiff]
  | split id axis children ih =>
    have hany : ∀ index, pathToAny pane index (mapLeavesAll f children) =
        pathToAny (f pane) index children := by
      induction children with
      | nil => exact fun _ => rfl
      | cons child rest ihrest =>
        intro index
        obtain ⟨weight, node⟩ := child
        rw [mapLeavesAll, pathToAny, pathToAny, ih _ List.mem_cons_self,
          ihrest (fun c hc => ih c (List.mem_cons_of_mem _ hc))]
    rw [mapLeaves, pathTo, pathTo, hany]

theorem pathTo_some {pane : PaneId} (h : pane ∈ node.allPaneIds) : ∃ path, node.pathTo pane = some path := by
  induction node with
  | leaf id =>
    obtain rfl : pane = id := by simpa using h
    exact ⟨[], by rw [pathTo, if_pos rfl]⟩
  | split id axis children ih =>
    have hany : ∀ index, ∃ path, pathToAny pane index children = some path := by
      rw [allPaneIds_split] at h
      induction children with
      | nil => exact absurd h (by simp)
      | cons child rest ihrest =>
        intro index
        obtain ⟨weight, node⟩ := child
        rw [pathToAny]
        rw [List.flatMap_cons, List.mem_append] at h
        cases hpath : (pathTo pane node).map fun path => index :: path with
        | some path => exact ⟨path, rfl⟩
        | none =>
          rcases h with hnode | hrest
          · obtain ⟨path, hsome⟩ := ih _ List.mem_cons_self hnode
            rw [hsome] at hpath
            cases hpath
          · exact ihrest (fun c hc => ih c (List.mem_cons_of_mem _ hc)) hrest _
    exact hany 0

/-! ## §5 Dividers -/

/-- The divider after the child at `index` has `weight` on its leading
side. -/
def Led (index : Nat) (weight : F64) (children : List WeightedChild) : Prop :=
  ∃ leading trailing, children[index]? = some leading ∧ children[index + 1]? = some trailing ∧
    leading.weight = .flex weight

/-- There is a divider of a split of that id with that weight. -/
inductive Divides (split : SplitNodeId) (index : Nat) (weight : F64) : SplitNode → Prop
  | here {axis : SplitAxis} {children : List WeightedChild} (h : Led index weight children) :
      Divides split index weight (.split split axis children)
  | deeper {id : SplitNodeId} {axis : SplitAxis} {children : List WeightedChild}
      {child : WeightedChild} (hc : child ∈ children) (h : Divides split index weight child.node) :
      Divides split index weight (.split id axis children)

/-- The pair at a divider takes a weight as it is: two flex children whose
sum leaves the room, or a pair that is not, and has the weight already. -/
def TakesWeight (index : Nat) (weight : F64) (children : List WeightedChild) : Prop :=
  ∃ leading trailing, children[index]? = some leading ∧ children[index + 1]? = some trailing ∧
    match leading.weight.share, trailing.weight.share with
    | some lead, some trail => heldShare (lead.add trail) weight = weight
    | _, _ => leading.weight = .flex weight

/-- A divider of the outermost splits of that id takes the weight, or one
below them has it already. -/
inductive Takes (split : SplitNodeId) (index : Nat) (weight : F64) : SplitNode → Prop
  | here {axis : SplitAxis} {children : List WeightedChild} (h : TakesWeight index weight children) :
      Takes split index weight (.split split axis children)
  | inside {axis : SplitAxis} {children : List WeightedChild} {child : WeightedChild}
      (hc : child ∈ children) (h : Divides split index weight child.node) :
      Takes split index weight (.split split axis children)
  | deeper {id : SplitNodeId} {axis : SplitAxis} {children : List WeightedChild}
      {child : WeightedChild} (hid : id ≠ split) (hc : child ∈ children)
      (h : Takes split index weight child.node) : Takes split index weight (.split id axis children)

theorem led_adjustPair (children : List WeightedChild) (index : Nat) (weight : F64) :
    Led index weight (adjustPair children index fun _ _ => weight) ↔
      TakesWeight index weight children := by
  unfold adjustPair TakesWeight
  split
  · rename_i leading trailing hlead htrail
    simp only [hlead, htrail, Option.some.injEq, ↓existsAndEq, true_and]
    split
    · rename_i lead trail hlead' htrail'
      obtain ⟨hin, -⟩ := List.getElem?_eq_some_iff.mp hlead
      obtain ⟨hnext, -⟩ := List.getElem?_eq_some_iff.mp htrail
      simp [Led, hin, hnext, hlead', htrail']
    · simp [Led, hlead, htrail]
  · rename_i hnone
    constructor
    · rintro ⟨leading, trailing, hlead, htrail, -⟩
      exact absurd htrail (hnone leading trailing hlead)
    · grind

theorem divides_settingDividerWeight (node : SplitNode) (split : SplitNodeId) (index : Nat)
    (weight : F64) : (node.settingDividerWeight split index weight).Divides split index weight ↔
      node.Takes split index weight := by
  unfold settingDividerWeight
  induction node with
  | leaf id =>
    constructor
    · intro h
      cases h
    · intro h
      cases h
  | split id axis children ih =>
    rw [mapSplit]
    split
    · rename_i hid
      subst hid
      have hnodes := adjustPair_nodes children index fun _ _ => weight
      constructor
      · intro h
        cases h with
        | here h => exact .here ((led_adjustPair children index weight).mp h)
        | deeper hc h =>
          obtain ⟨child, hmem, hsame⟩ := List.mem_map.mp (hnodes ▸ List.mem_map_of_mem hc)
          exact .inside hmem (hsame ▸ h)
      · intro h
        cases h with
        | here h => exact .here ((led_adjustPair children index weight).mpr h)
        | inside hc h =>
          obtain ⟨child, hmem, hsame⟩ := List.mem_map.mp (hnodes.symm ▸ List.mem_map_of_mem hc)
          exact .deeper hmem (hsame ▸ h)
        | deeper hid => exact absurd rfl hid
    · rename_i hid
      rw [mapSplitAll_eq]
      constructor
      · intro h
        cases h with
        | here h => exact absurd rfl hid
        | deeper hc h =>
          obtain ⟨child, hmem, rfl⟩ := List.mem_map.mp hc
          exact .deeper hid hmem ((ih child hmem).mp h)
      · intro h
        cases h with
        | here h => exact absurd rfl hid
        | inside => exact absurd rfl hid
        | deeper _ hc h => exact .deeper (List.mem_map_of_mem hc) ((ih _ hc).mpr h)

end SplitNode

end SlopDesk.Tree
