/-
SlopDesk.Tree.SplitTreeTheorems — the operations on a split tree keep it
well formed and lose no pane.

  §1 Shape      — `Shaped`: every split has two children or more, none of
                  them a split along its own axis.
  §2 Insertion  — beside a leaf and at the root edge.
  §3 Removal    — the collapse of a split left with one child, and the
                  merge of what it floats up.
  §4 Swaps, and the whole of it.
-/
import SlopDesk.Base.Position
import SlopDesk.Tree.SplitTree

namespace SlopDesk.Tree

open SlopDesk.Base
open SlopDesk.Wire (RawUuid)

/-! ## §1 Shape -/

/-- Every split has at least two children, and no child of a split is a
split along the same axis. -/
inductive Shaped : SplitNode → Prop
  | leaf {pane : PaneId} : Shaped (.leaf pane)
  | split {id : SplitNodeId} {axis : SplitAxis} {children : List WeightedChild}
      (arity : 2 ≤ children.length) (nodes : ∀ child ∈ children, Shaped child.node)
      (crossed : ∀ child ∈ children, child.node.axis? ≠ some axis) :
      Shaped (.split id axis children)

theorem Shaped.sibling {id : SplitNodeId} {axis : SplitAxis} {children : List WeightedChild}
    {leaf : PaneId} (h : Shaped (.split id axis children)) (index : Nat) (weight : SplitWeight) :
    Shaped (.split id axis (children.insertIdx index ⟨weight, .leaf leaf⟩)) := by
  cases h with
  | split arity nodes crossed =>
    refine .split (arity.trans List.length_le_length_insertIdx) (fun child hc => ?_)
      (fun child hc => ?_)
    · rcases List.eq_or_mem_of_mem_insertIdx hc with rfl | hold
      · exact .leaf
      · exact nodes child hold
    · rcases List.eq_or_mem_of_mem_insertIdx hc with rfl | hold
      · simp [SplitNode.axis?]
      · exact crossed child hold

/-- A well-formed split tree: shaped, and no pane in it twice. -/
structure SplitNode.WellFormed (node : SplitNode) : Prop where
  shaped : Shaped node
  nodup : node.allPaneIds.Nodup

namespace SplitNode

variable {leaf target : PaneId} {axis : SplitAxis} {before : Bool} {fresh : SplitNodeId}
variable {node pruned : SplitNode} {children : List WeightedChild} {id : SplitNodeId}
variable {pane : PaneId} {panes : List PaneId} {index : Nat} {merged : List WeightedChild}
variable (transform : PaneId → PaneId)

theorem allPaneIds_ne_nil (h : Shaped node) : node.allPaneIds ≠ [] := by
  induction h with
  | leaf => simp
  | split arity nodes crossed ih =>
    rename_i id axis children
    match children, arity with
    | child :: rest, _ => simp [ih child (by simp)]

theorem firstLeafId_mem (h : node.firstLeafId = some pane) : pane ∈ node.allPaneIds := by
  induction node with
  | leaf id => simpa [firstLeafId, eq_comm] using h
  | split id axis children ih =>
    cases children with
    | nil => simp [firstLeafId, firstLeafIdOf] at h
    | cons child rest =>
      obtain ⟨weight, node⟩ := child
      simp only [allPaneIds_split, List.flatMap_cons, List.mem_append]
      exact .inl (ih ⟨weight, node⟩ List.mem_cons_self h)

/-! ## §2 Insertion -/

/-- A list of panes with one placed beside another. -/
def placedBeside (leaf target : PaneId) (before : Bool) (panes : List PaneId) : List PaneId :=
  panes.flatMap fun pane =>
    if pane = target then if before then [leaf, pane] else [pane, leaf] else [pane]

theorem placedBeside_append (leaf target : PaneId) (before : Bool) (xs ys : List PaneId) :
    placedBeside leaf target before (xs ++ ys) =
      placedBeside leaf target before xs ++ placedBeside leaf target before ys := by
  simp [placedBeside]

theorem placedBeside_of_not_mem (h : target ∉ panes) : placedBeside leaf target before panes = panes := by
  induction panes with
  | nil => rfl
  | cons pane rest ih =>
    obtain ⟨hne, hrest⟩ := List.ne_and_not_mem_of_not_mem_cons h
    have hrest' := ih hrest
    simp only [placedBeside] at hrest' ⊢
    simp [Ne.symm hne, hrest']

theorem placedBeside_flatMap (children : List WeightedChild) :
    placedBeside leaf target before (children.flatMap fun child => child.node.allPaneIds) =
      children.flatMap fun child => placedBeside leaf target before child.node.allPaneIds := by
  simp [placedBeside, List.flatMap_assoc]

theorem placedBeside_nodup (h : panes.Nodup) (hleaf : leaf ∉ panes) :
    (placedBeside leaf target before panes).Nodup := by
  by_cases htarget : target ∈ panes
  · obtain ⟨pre, post, rfl⟩ := List.append_of_mem htarget
    have hpre : target ∉ pre := fun hmem => List.disjoint_of_nodup_append h hmem (by simp)
    have hpost : target ∉ post := (List.nodup_cons.mp (List.nodup_append.mp h).2.1).1
    have hplaced : placedBeside leaf target before (pre ++ target :: post) =
        pre ++ ((if before then [leaf, target] else [target, leaf]) ++ post) := by
      rw [placedBeside_append, placedBeside_of_not_mem hpre, ← List.singleton_append,
        placedBeside_append, placedBeside_of_not_mem hpost]
      simp [placedBeside]
    have hperm : (placedBeside leaf target before (pre ++ target :: post)).Perm
        (leaf :: (pre ++ target :: post)) := by
      rw [hplaced]
      cases before
      · have hmiddle : (pre ++ [target] ++ leaf :: post).Perm (leaf :: (pre ++ [target] ++ post)) :=
          List.perm_middle
        simpa using hmiddle
      · simp
    exact hperm.nodup_iff.mpr (List.nodup_cons.mpr ⟨hleaf, h⟩)
  · rwa [placedBeside_of_not_mem htarget]

theorem isLeaf_iff : node.isLeaf target = true ↔ node = .leaf target := by
  cases node <;> simp [isLeaf]

theorem direct_cut {splitAxis : SplitAxis}
    (h : (if splitAxis = axis then children.findIdx? fun child => child.node.isLeaf target
      else none) = some index) :
    ∃ pre child post, children = pre ++ child :: post ∧ pre.length = index ∧
      child.node = .leaf target := by
  split at h
  · obtain ⟨pre, child, post, hcut, hlen, hleaf, -⟩ := Position.of_findIdx? h
    exact ⟨pre, child, post, hcut, hlen, isLeaf_iff.mp hleaf⟩
  · cases h

theorem insertBesideImpl_axis {a : SplitAxis} (h : node.axis? = some a) :
    (node.insertBesideImpl leaf target axis before fresh).axis? = some a := by
  cases node with
  | leaf => simp [axis?] at h
  | split id splitAxis children =>
    grind [axis?, insertBesideImpl]

theorem insertBesideImpl_shaped (h : Shaped node) :
    Shaped (node.insertBesideImpl leaf target axis before fresh) := by
  induction h with
  | @leaf pane =>
    by_cases hp : pane = target
    · have hpair : 2 ≤ (if before then [WeightedChild.leaf leaf, .leaf target]
          else [.leaf target, .leaf leaf]).length := by cases before <;> simp
      simp only [insertBesideImpl, hp, ne_eq, not_true, if_false]
      refine .split hpair (fun child hc => ?_) (fun child hc => ?_)
      · cases before <;> simp at hc <;> rcases hc with rfl | rfl <;> exact .leaf
      · cases before <;> simp at hc <;> rcases hc with rfl | rfl <;> simp [WeightedChild.leaf, axis?]
    · simp only [insertBesideImpl, ne_eq, hp, not_false_eq_true, if_true]
      exact .leaf
  | @split id splitAxis children arity nodes crossed ih =>
    simp only [insertBesideImpl]
    split
    · -- a plain sibling, next to a leaf of this very split
      exact (Shaped.split arity nodes crossed).sibling _ _
    · rename_i hdirect
      rw [insertBesideAll_eq]
      refine .split (by simpa using arity) (fun child hc => ?_) (fun child hc => ?_)
      · grind
      · obtain ⟨old, hold, rfl⟩ := List.mem_map.mp hc
        split
        · rename_i hcontains
          cases hnode : old.node with
          | leaf pane =>
            -- the target is a leaf of this split, so the axes differ
            obtain rfl : target = pane := by simpa [hnode] using hcontains
            obtain ⟨index, hindex⟩ := Position.exists_findIdx?
              (p := fun child : WeightedChild => child.node.isLeaf target) hold (by simp [hnode, isLeaf])
            have hne : splitAxis ≠ axis := by
              intro heq
              simp [heq, hindex] at hdirect
            simpa [insertBesideImpl, axis?] using hne.symm
          | split childId childAxis grandchildren =>
            rw [insertBesideImpl_axis rfl]
            simpa [hnode, axis?] using crossed old hold
        · exact crossed old hold

/-- The panes of a tree grown beside a leaf: the same ones, with the new
one next to its target. -/
theorem insertBesideImpl_allPaneIds (h : node.allPaneIds.Nodup) :
    (node.insertBesideImpl leaf target axis before fresh).allPaneIds =
      placedBeside leaf target before node.allPaneIds := by
  induction node with
  | leaf pane =>
    by_cases hp : pane = target
    · cases before <;> simp [insertBesideImpl, placedBeside, WeightedChild.leaf, hp]
    · simp [insertBesideImpl, placedBeside, hp]
  | split id splitAxis children ih =>
    simp only [insertBesideImpl]
    split
    · rename_i index hindex
      obtain ⟨pre, child, post, rfl, rfl, hnode⟩ := direct_cut hindex
      have hpre : target ∉ pre.flatMap fun child => child.node.allPaneIds := by
        simp only [allPaneIds_split, List.flatMap_append, List.flatMap_cons, hnode,
          allPaneIds_leaf] at h
        exact fun hmem => (List.disjoint_of_nodup_append h) hmem (by simp)
      have hpost : target ∉ post.flatMap fun child => child.node.allPaneIds := by
        simp only [allPaneIds_split, List.flatMap_append, List.flatMap_cons, hnode,
          allPaneIds_leaf] at h
        simpa using (List.nodup_cons.mp (List.nodup_append.mp h).2.1).1
      have hsides : placedBeside leaf target before ((pre ++ child :: post).flatMap fun child =>
          child.node.allPaneIds) = (pre.flatMap fun child => child.node.allPaneIds) ++
            ((if before then [leaf, target] else [target, leaf]) ++
              post.flatMap fun child => child.node.allPaneIds) := by
        rw [List.flatMap_append, List.flatMap_cons, placedBeside_append, placedBeside_append,
          placedBeside_of_not_mem hpre, placedBeside_of_not_mem hpost, hnode]
        simp [placedBeside]
      rw [allPaneIds_split, allPaneIds_split, hsides]
      cases before <;> simp [hnode]
    · rw [allPaneIds_split, allPaneIds_split, placedBeside_flatMap, insertBesideAll_eq,
        List.flatMap_map]
      refine List.flatMap_congr fun child hc => ?_
      have hchild : child.node.allPaneIds.Nodup :=
        (List.nodup_flatMap.mp (allPaneIds_split .. ▸ h)).1 child hc
      by_cases hmem : target ∈ child.node.allPaneIds
      · simp only [contains_iff.mpr hmem, if_true]
        exact ih child hc hchild
      · simp only [contains_iff, hmem, if_false]
        exact (placedBeside_of_not_mem hmem).symm

/-- Growing a tree beside one of its leaves adds the new pane and loses
none, whatever the tree. -/
theorem mem_insertBesideImpl (h : target ∈ node.allPaneIds) :
    pane ∈ (node.insertBesideImpl leaf target axis before fresh).allPaneIds ↔
      pane = leaf ∨ pane ∈ node.allPaneIds := by
  induction node with
  | leaf id =>
    obtain rfl : target = id := by simpa using h
    cases before <;> simp [insertBesideImpl, WeightedChild.leaf, or_comm]
  | split id splitAxis children ih =>
    simp only [insertBesideImpl]
    split
    · rename_i index hindex
      obtain ⟨pre, child, post, rfl, rfl, hnode⟩ := direct_cut hindex
      cases before <;> simp [hnode, or_left_comm]
    · obtain ⟨host, hhost, htarget⟩ : ∃ child ∈ children, target ∈ child.node.allPaneIds := by
        simpa using h
      rw [insertBesideAll_eq]
      simp only [allPaneIds_split, List.flatMap_map, List.mem_flatMap]
      refine ⟨fun ⟨child, hc, hmem⟩ => ?_, fun hmem => ?_⟩
      · by_cases hin : target ∈ child.node.allPaneIds
        · grind
        · simp only [contains_iff, hin, if_false] at hmem
          exact .inr ⟨child, hc, hmem⟩
      · obtain rfl | ⟨child, hc, hmem⟩ := hmem
        · exact ⟨host, hhost, by simp [htarget, ih host hhost htarget]⟩
        · refine ⟨child, hc, ?_⟩
          split
          · rename_i hin
            exact (ih child hc (contains_iff.mp hin)).mpr (.inr hmem)
          · exact hmem

theorem insertingAtRoot_shaped (h : Shaped node) :
    Shaped (node.insertingAtRoot leaf axis before fresh) := by
  have hwrapped : node.axis? ≠ some axis → Shaped (node.wrapped leaf axis before fresh) := by
    intro hne
    cases before
    all_goals
      refine .split (by simp) (fun child hc => ?_) (fun child hc => ?_)
      · simp at hc
        rcases hc with rfl | rfl <;> first | exact h | exact .leaf
      · grind [WeightedChild.leaf, axis?]
  cases h with
  | leaf => exact hwrapped (by simp [axis?])
  | @split id splitAxis children arity nodes crossed =>
    rw [insertingAtRoot]
    split
    · exact (Shaped.split arity nodes crossed).sibling _ _
    · grind [axis?]

theorem insertingAtRoot_allPaneIds (node : SplitNode) :
    (node.insertingAtRoot leaf axis before fresh).allPaneIds =
      if before then leaf :: node.allPaneIds else node.allPaneIds ++ [leaf] := by
  cases node with
  | leaf pane => cases before <;> simp [insertingAtRoot, wrapped, WeightedChild.leaf]
  | split id splitAxis children =>
    rw [insertingAtRoot]
    split
    · cases before <;> simp
    · cases before <;> simp [wrapped, WeightedChild.leaf]

/-! ## §3 Removal -/

theorem mergeSameAxis_allPaneIds (children : List WeightedChild) (axis : SplitAxis) :
    (mergeSameAxis children axis).flatMap (fun child => child.node.allPaneIds) =
      children.flatMap fun child => child.node.allPaneIds := by
  rw [mergeSameAxis, List.flatMap_assoc]
  refine List.flatMap_congr fun child _ => ?_
  cases hnode : child.node with
  | leaf => simp [hnode]
  | split id childAxis grandchildren =>
    by_cases haxis : childAxis = axis
    · simp [haxis]
    · simp [hnode, haxis]

theorem mergeSameAxis_shaped (axis : SplitAxis) (h : ∀ child ∈ children, Shaped child.node) :
    ∀ child ∈ mergeSameAxis children axis, Shaped child.node ∧ child.node.axis? ≠ some axis := by
  intro child hc
  obtain ⟨old, hold, hmem⟩ := List.mem_flatMap.mp hc
  have hshaped := h old hold
  cases hnode : old.node with
  | leaf pane =>
    obtain rfl : child = old := by simpa [hnode] using hmem
    simp [hnode, axis?, Shaped.leaf]
  | split id childAxis grandchildren =>
    rw [hnode] at hshaped hmem
    by_cases haxis : childAxis = axis
    · cases hshaped with
      | split arity nodes crossed =>
        grind
    · obtain rfl : child = old := by simpa [haxis] using hmem
      rw [hnode]
      exact ⟨hshaped, by simpa [axis?] using haxis⟩

theorem mergeSameAxis_eq_self
    (h : ∀ child ∈ children, child.node.axis? ≠ some axis) : mergeSameAxis children axis = children := by
  induction children with
  | nil => rfl
  | cons child rest ih =>
    have hrest := ih fun child hc => h child (List.mem_cons_of_mem _ hc)
    have hchild := h child List.mem_cons_self
    simp only [mergeSameAxis] at hrest
    cases hnode : child.node with
    | leaf => simp [mergeSameAxis, hnode, hrest]
    | split id childAxis grandchildren =>
      have hne : childAxis ≠ axis := by simpa [hnode, axis?] using hchild
      simp [mergeSameAxis, hnode, hne, hrest]

/-- A weight whose share, if it is flex, is another. -/
def withShare (share : F64) : SplitWeight → SplitWeight
  | .flex _ => .flex share
  | .fixed points => .fixed points

theorem rebalanceFlex_eq (children : List WeightedChild) :
    ∃ f : SplitWeight → SplitWeight, (∀ weight, evened (f weight) = evened weight) ∧
      rebalanceFlex children = children.map fun child => ⟨f child.weight, child.node⟩ := by
  simp only [rebalanceFlex]
  split
  · exact ⟨id, fun _ => rfl, by simp⟩
  · refine ⟨withShare ((((flexTotal children).1).div (F64.ofNat (flexTotal children).2)).max minWeight),
      fun weight => by cases weight <;> rfl, ?_⟩
    refine List.map_congr_left fun child _ => ?_
    obtain ⟨weight, node⟩ := child
    cases weight <;> rfl

theorem rebalanceFlex_allPaneIds (children : List WeightedChild) :
    (rebalanceFlex children).flatMap (fun child => child.node.allPaneIds) =
      children.flatMap fun child => child.node.allPaneIds := by
  obtain ⟨f, -, hf⟩ := rebalanceFlex_eq children
  rw [hf, List.flatMap_map]

theorem collapsed_of_two (h : 2 ≤ merged.length) :
    collapsed id axis merged = some (.split id axis (rebalanceFlex merged)) := by
  match merged, h with
  | _ :: _ :: _, _ => rfl

/-- A collapse keeps the panes: what it leaves has them all, and it leaves
nothing only where there are none. -/
theorem collapsed_allPaneIds (id : SplitNodeId) (merged : List WeightedChild) :
    ((collapsed id axis merged).map allPaneIds).getD [] =
      merged.flatMap fun child => child.node.allPaneIds := by
  match merged with
  | [] => rfl
  | [child] => simp [collapsed]
  | first :: second :: rest =>
    rw [collapsed_of_two (by simp), Option.map_some, Option.getD_some, allPaneIds_split,
      rebalanceFlex_allPaneIds]

/-- A split over shaped children that cross it collapses to a shaped
tree. -/
theorem collapsed_shaped (id : SplitNodeId)
    (h : ∀ child ∈ merged, Shaped child.node ∧ child.node.axis? ≠ some axis)
    (hnode : collapsed id axis merged = some node) : Shaped node := by
  match merged, h with
  | [], _ => simp [collapsed] at hnode
  | [child], h =>
    grind [collapsed]
  | first :: second :: rest, h =>
    obtain rfl : .split id axis (rebalanceFlex (first :: second :: rest)) = node := by
      simpa [collapsed] using hnode
    obtain ⟨f, -, hf⟩ := rebalanceFlex_eq (first :: second :: rest)
    rw [hf]
    refine .split (by simp) (fun child hc => ?_) (fun child hc => ?_)
    · grind
    · grind

/-- What a removal leaves has the other panes, in their order; it leaves
nothing only where there are none. -/
theorem removeImpl_allPaneIds (node : SplitNode) (target : PaneId) :
    ((node.removeImpl target).map allPaneIds).getD [] =
      node.allPaneIds.filter fun pane => pane != target := by
  induction node with
  | leaf pane => by_cases hp : pane = target <;> simp [removeImpl, hp]
  | split id axis children ih =>
    rw [removeImpl, collapsed_allPaneIds, mergeSameAxis_allPaneIds, survivors_eq, allPaneIds_split,
      List.filter_flatMap]
    induction children with
    | nil => rfl
    | cons child rest ihRest =>
      have hchild := ih child List.mem_cons_self
      have hrest := ihRest fun child hc => ih child (List.mem_cons_of_mem _ hc)
      rw [List.filterMap_cons, List.flatMap_cons, ← hchild, ← hrest]
      cases child.node.removeImpl target with
      | none => rfl
      | some pruned => rfl

theorem removeImpl_shaped (h : Shaped node)
    (hpruned : node.removeImpl target = some pruned) : Shaped pruned := by
  induction h generalizing pruned with
  | @leaf pane =>
    by_cases hp : pane = target
    · simp [removeImpl, hp] at hpruned
    · obtain rfl : .leaf pane = pruned := by simpa [removeImpl, hp] using hpruned
      exact .leaf
  | @split id axis children arity nodes crossed ih =>
    have hsurvivors : ∀ child ∈ survivors target children, Shaped child.node := by
      rw [survivors_eq]
      intro child hc
      obtain ⟨old, hold, hmap⟩ := List.mem_filterMap.mp hc
      obtain ⟨kept, hkept, rfl⟩ := Option.map_eq_some_iff.mp hmap
      exact ih old hold hkept
    exact collapsed_shaped id (mergeSameAxis_shaped axis hsurvivors) hpruned

theorem removing_allPaneIds (node : SplitNode) (target : PaneId) :
    ((node.removing target).map allPaneIds).getD [] =
      node.allPaneIds.filter fun pane => pane != target := by
  rw [removing]
  split
  · exact removeImpl_allPaneIds node target
  · rename_i habsent
    refine (List.filter_eq_self.mpr fun pane hp => ?_).symm
    have hne : pane ≠ target := by
      rintro rfl
      exact habsent (contains_iff.mpr hp)
    simpa using hne

theorem removing_some (h : node.removing target = some pruned) :
    pruned.allPaneIds = node.allPaneIds.filter fun pane => pane != target := by
  rw [← removing_allPaneIds, h]
  rfl

theorem removing_shaped (hnode : Shaped node) (h : node.removing target = some pruned) : Shaped pruned := by
  rw [removing] at h
  split at h
  · exact removeImpl_shaped hnode h
  · exact Option.some.inj h ▸ hnode

/-! ### A pane taken out again -/

theorem rebalanced_split (id : SplitNodeId) (axis : SplitAxis) (children : List WeightedChild) :
    rebalanced (.split id axis children) =
      .split id axis (children.map fun child => ⟨evened child.weight, child.node.rebalanced⟩) := by
  rw [rebalanced, rebalancedAll_eq]

theorem axis_of_rebalanced {a b : SplitNode} (h : a.rebalanced = b.rebalanced) : a.axis? = b.axis? := by
  cases a <;> cases b <;> simp_all [rebalanced, axis?]

/-- Children that each come through a removal as they were, shares apart,
leave their split as it was, shares apart. -/
theorem collapsed_rebalanced {grown : WeightedChild → SplitNode} (hshaped : Shaped (.split id axis children))
    (h : ∀ child ∈ children, ∃ pruned, (grown child).removeImpl target = some pruned ∧
      pruned.rebalanced = child.node.rebalanced) :
    ∃ pruned, collapsed id axis (mergeSameAxis (survivors target
        (children.map fun child => ⟨child.weight, grown child⟩)) axis) = some pruned ∧
      pruned.rebalanced = (SplitNode.split id axis children).rebalanced := by
  cases hshaped with
  | split arity nodes crossed =>
    obtain ⟨kept, hkept⟩ : ∃ kept : WeightedChild → SplitNode, ∀ child ∈ children,
        (grown child).removeImpl target = some (kept child) ∧
          (kept child).rebalanced = child.node.rebalanced := by
      refine ⟨fun child => ((grown child).removeImpl target).getD (grown child), fun child hc => ?_⟩
      obtain ⟨pruned, hpruned, heq⟩ := h child hc
      simp [hpruned, heq]
    have hsurvivors : survivors target (children.map fun child => ⟨child.weight, grown child⟩) =
        children.map fun child => ⟨child.weight, kept child⟩ := by
      rw [survivors_eq, List.filterMap_map, ← List.filterMap_eq_map]
      exact List.filterMap_congr fun child hc => by simp [(hkept child hc).1]
    have hmerged : mergeSameAxis (children.map fun child => ⟨child.weight, kept child⟩) axis =
        children.map fun child => ⟨child.weight, kept child⟩ := by
      refine mergeSameAxis_eq_self fun child hc => ?_
      obtain ⟨old, hold, rfl⟩ := List.mem_map.mp hc
      exact axis_of_rebalanced (hkept old hold).2 ▸ crossed old hold
    obtain ⟨f, hf, heq⟩ := rebalanceFlex_eq (children.map fun child => ⟨child.weight, kept child⟩)
    refine ⟨_, by rw [hsurvivors, hmerged, collapsed_of_two (by simpa using arity)], ?_⟩
    rw [heq, rebalanced_split, rebalanced_split, List.map_map, List.map_map]
    congr 1
    exact List.map_congr_left fun child hc => by simp [hf, (hkept child hc).2]

theorem removeImpl_absent (h : Shaped node) (habsent : target ∉ node.allPaneIds) :
    ∃ pruned, node.removeImpl target = some pruned ∧ pruned.rebalanced = node.rebalanced := by
  induction h with
  | @leaf pane =>
    have hne : pane ≠ target := fun h => habsent (by simp [h])
    exact ⟨.leaf pane, by simp [removeImpl, hne], rfl⟩
  | @split id axis children arity nodes crossed ih =>
    have hall : ∀ child ∈ children, ∃ pruned, child.node.removeImpl target = some pruned ∧
        pruned.rebalanced = child.node.rebalanced := by
      grind [allPaneIds_split]
    simpa [removeImpl] using collapsed_rebalanced (.split arity nodes crossed) hall

theorem removeImpl_sibling
    {weight : SplitWeight} (h : Shaped (.split id axis children)) (hindex : index ≤ children.length)
    (habsent : leaf ∉ (SplitNode.split id axis children).allPaneIds) :
    ∃ pruned, (SplitNode.split id axis (children.insertIdx index ⟨weight, .leaf leaf⟩)).removeImpl leaf =
      some pruned ∧ pruned.rebalanced = (SplitNode.split id axis children).rebalanced := by
  have hsurvivors : survivors leaf (children.insertIdx index ⟨weight, .leaf leaf⟩) =
      survivors leaf children := by
    rw [Position.insertIdx_eq hindex, survivors_eq, survivors_eq, List.filterMap_append,
      List.filterMap_cons]
    conv_rhs => rw [← List.take_append_drop index children, List.filterMap_append]
    simp [removeImpl]
  obtain ⟨pruned, hpruned, heq⟩ := removeImpl_absent h habsent
  exact ⟨pruned, by rw [removeImpl, hsurvivors, ← hpruned, removeImpl], heq⟩

theorem removeImpl_insertBesideImpl (h : Shaped node) (habsent : leaf ∉ node.allPaneIds) :
    ∃ pruned, (node.insertBesideImpl leaf target axis before fresh).removeImpl leaf = some pruned ∧
      pruned.rebalanced = node.rebalanced := by
  induction h with
  | @leaf pane =>
    have hne : pane ≠ leaf := fun h => habsent (by simp [h])
    by_cases hp : pane = target
    · subst hp
      cases before <;>
        simp [insertBesideImpl, removeImpl, survivors_eq, WeightedChild.leaf, hne, mergeSameAxis,
          collapsed]
    · exact ⟨.leaf pane, by simp [insertBesideImpl, removeImpl, hp, hne], rfl⟩
  | @split id splitAxis children arity nodes crossed ih =>
    simp only [insertBesideImpl]
    split
    · rename_i index hindex
      obtain ⟨pre, child, post, rfl, rfl, -⟩ := direct_cut hindex
      refine removeImpl_sibling (.split arity nodes crossed) ?_ habsent
      simp only [List.length_append, List.length_cons]
      split <;> omega
    · rw [insertBesideAll_eq, removeImpl]
      refine collapsed_rebalanced (.split arity nodes crossed) fun child hc => ?_
      have hchild : leaf ∉ child.node.allPaneIds := fun hmem => habsent (by
        grind [allPaneIds_split])
      split
      · exact ih child hc hchild
      · exact removeImpl_absent (nodes child hc) hchild

theorem removeImpl_insertingAtRoot (h : Shaped node) (habsent : leaf ∉ node.allPaneIds) :
    ∃ pruned, (node.insertingAtRoot leaf axis before fresh).removeImpl leaf = some pruned ∧
      pruned.rebalanced = node.rebalanced := by
  have hwrapped : node.axis? ≠ some axis →
      ∃ pruned, (node.wrapped leaf axis before fresh).removeImpl leaf = some pruned ∧
        pruned.rebalanced = node.rebalanced := by
    intro hcrossed
    obtain ⟨pruned, hpruned, heq⟩ := removeImpl_absent h habsent
    have hmerged : mergeSameAxis [⟨.flex F64.one, pruned⟩] axis = [⟨.flex F64.one, pruned⟩] :=
      mergeSameAxis_eq_self fun child hc => by
        obtain rfl := List.mem_singleton.mp hc
        exact axis_of_rebalanced heq ▸ hcrossed
    refine ⟨pruned, ?_, heq⟩
    cases before <;>
      simp [wrapped, removeImpl, survivors_eq, WeightedChild.leaf, hpruned, hmerged, collapsed]
  cases node with
  | leaf pane => exact hwrapped (by simp [axis?])
  | split id splitAxis children =>
    simp only [insertingAtRoot]
    split
    · exact removeImpl_sibling h (by split <;> simp) habsent
    · rename_i hne
      exact hwrapped (by simpa [axis?] using hne)

/-! ### Dividers -/

theorem adjustPair_nodes (children : List WeightedChild) (index : Nat) (propose : F64 → F64 → F64) :
    (adjustPair children index propose).map WeightedChild.node = children.map WeightedChild.node := by
  unfold adjustPair
  split
  · split
    · refine List.ext_getElem? fun i => ?_
      simp only [List.getElem?_map, List.getElem?_set]
      grind
    · rfl
  · rfl

theorem settingDividerWeight_allPaneIds (node : SplitNode) (splitId : SplitNodeId) (index : Nat)
    (weight : F64) : (node.settingDividerWeight splitId index weight).allPaneIds = node.allPaneIds := by
  simp only [settingDividerWeight]
  induction node with
  | leaf pane => rfl
  | split id axis children ih =>
    have hpanes : ∀ children : List WeightedChild,
        (children.flatMap fun child => child.node.allPaneIds) =
          (children.map WeightedChild.node).flatMap allPaneIds := fun children => by
      rw [List.flatMap_map]
    rw [mapSplit]
    split
    · rw [allPaneIds_split, allPaneIds_split, hpanes, hpanes, adjustPair_nodes]
    · rw [allPaneIds_split, allPaneIds_split, mapSplitAll_eq, List.flatMap_map]
      exact List.flatMap_congr fun child hc => ih child hc

theorem mapSplit_axis (splitId : SplitNodeId) (rewrite : List WeightedChild → List WeightedChild)
    (node : SplitNode) : (node.mapSplit splitId rewrite).axis? = node.axis? := by
  cases node with
  | leaf => rfl
  | split id axis children =>
    rw [mapSplit]
    split <;> rfl

theorem settingDividerWeight_shaped (h : Shaped node) (splitId : SplitNodeId)
    (index : Nat) (weight : F64) : Shaped (node.settingDividerWeight splitId index weight) := by
  simp only [settingDividerWeight]
  induction h with
  | leaf => exact .leaf
  | @split id axis children arity nodes crossed ih =>
    rw [mapSplit]
    split
    · have hnodes := adjustPair_nodes children index fun _ _ => weight
      have hmem : ∀ child ∈ adjustPair children index fun _ _ => weight,
          ∃ old ∈ children, old.node = child.node := fun child hc => by
        have hin := List.mem_map_of_mem (f := WeightedChild.node) hc
        rw [hnodes] at hin
        exact List.mem_map.mp hin
      have hlength := congrArg List.length hnodes
      simp only [List.length_map] at hlength
      refine .split (hlength ▸ arity) (fun child hc => ?_) (fun child hc => ?_)
      · grind
      · grind
    · rw [mapSplitAll_eq]
      refine .split (by simpa using arity) (fun child hc => ?_) (fun child hc => ?_)
      · grind
      · grind [mapSplit_axis]

/-! ## §4 Swaps, and the whole of it -/

theorem mapLeaves_allPaneIds (node : SplitNode) :
    (node.mapLeaves transform).allPaneIds = node.allPaneIds.map transform := by
  induction node with
  | leaf pane => rfl
  | split id axis children ih =>
    rw [mapLeaves, mapLeavesAll_eq, allPaneIds_split, allPaneIds_split, List.flatMap_map,
      List.map_flatMap]
    exact List.flatMap_congr fun child hc => ih child hc

theorem mapLeaves_axis (node : SplitNode) : (node.mapLeaves transform).axis? = node.axis? := by
  cases node <;> rfl

theorem mapLeaves_shaped (h : Shaped node) : Shaped (node.mapLeaves transform) := by
  induction h with
  | leaf => exact .leaf
  | split arity nodes crossed ih =>
    rw [mapLeaves, mapLeavesAll_eq]
    refine .split (by simpa using arity) (fun child hc => ?_) (fun child hc => ?_)
    · grind
    · grind [mapLeaves_axis]

theorem exchanging_exchanging (a b pane : PaneId) : exchanging a b (exchanging a b pane) = pane := by
  unfold exchanging
  grind

theorem exchanging_injective (a b : PaneId) : Function.Injective (exchanging a b) :=
  Function.LeftInverse.injective (exchanging_exchanging a b)

namespace WellFormed

variable {node : SplitNode}

theorem insertingBeside (h : node.WellFormed) (htarget : target ∈ node.allPaneIds)
    (hfresh : leaf ∉ node.allPaneIds) :
    ∃ grown, node.insertingBeside leaf target axis before fresh = some grown ∧ grown.WellFormed ∧
      grown.allPaneIds = placedBeside leaf target before node.allPaneIds ∧
      ∃ back, grown.removing leaf = some back ∧ back.rebalanced = node.rebalanced := by
  have hpanes : (node.insertBesideImpl leaf target axis before fresh).allPaneIds =
      placedBeside leaf target before node.allPaneIds := insertBesideImpl_allPaneIds h.nodup
  obtain ⟨back, hback, heq⟩ :
      ∃ back, (node.insertBesideImpl leaf target axis before fresh).removeImpl leaf = some back ∧
        back.rebalanced = node.rebalanced := removeImpl_insertBesideImpl h.shaped hfresh
  have hleaf : leaf ∈ placedBeside leaf target before node.allPaneIds :=
    List.mem_flatMap.mpr ⟨target, htarget, by cases before <;> simp⟩
  refine ⟨_, by rw [SplitNode.insertingBeside, if_pos (contains_iff.mpr htarget)],
    ⟨insertBesideImpl_shaped h.shaped, hpanes ▸ placedBeside_nodup h.nodup hfresh⟩, hpanes, back, ?_, heq⟩
  rw [removing, if_pos (contains_iff.mpr (hpanes ▸ hleaf)), hback]

theorem insertingAtRoot (h : node.WellFormed) (hfresh : leaf ∉ node.allPaneIds) :
    (node.insertingAtRoot leaf axis before fresh).WellFormed ∧
      ∃ back, (node.insertingAtRoot leaf axis before fresh).removing leaf = some back ∧
        back.rebalanced = node.rebalanced := by
  have hpanes : (node.insertingAtRoot leaf axis before fresh).allPaneIds =
      if before then leaf :: node.allPaneIds else node.allPaneIds ++ [leaf] :=
    insertingAtRoot_allPaneIds node
  obtain ⟨back, hback, heq⟩ :
      ∃ back, (node.insertingAtRoot leaf axis before fresh).removeImpl leaf = some back ∧
        back.rebalanced = node.rebalanced := removeImpl_insertingAtRoot h.shaped hfresh
  refine ⟨⟨insertingAtRoot_shaped h.shaped, ?_⟩, back, ?_, heq⟩
  · rw [hpanes]
    cases before
    · exact List.nodup_append.mpr ⟨h.nodup, by simp, fun a ha b hb => by
        grind⟩
    · exact List.nodup_cons.mpr ⟨hfresh, h.nodup⟩
  · rw [removing, if_pos (contains_iff.mpr (by rw [hpanes]; cases before <;> simp)), hback]

theorem removing (h : node.WellFormed) (htarget : target ∈ node.allPaneIds) :
    match node.removing target with
    | some pruned => pruned.WellFormed ∧ pruned.allPaneIds = node.allPaneIds.erase target
    | none => node.allPaneIds = [target] := by
  have hpanes := removeImpl_allPaneIds node target
  have herase : node.allPaneIds.erase target = node.allPaneIds.filter fun pane => pane != target :=
    h.nodup.erase_eq_filter target
  rw [SplitNode.removing, if_pos (contains_iff.mpr htarget)]
  cases hr : node.removeImpl target with
  | some pruned =>
    rw [hr, Option.map_some, Option.getD_some] at hpanes
    exact ⟨⟨removeImpl_shaped h.shaped hr, hpanes ▸ h.nodup.filter _⟩, by rw [hpanes, herase]⟩
  | none =>
    have hempty : node.allPaneIds.erase target = [] := by rw [herase, ← hpanes, hr]; rfl
    have hperm := List.perm_cons_erase htarget
    rw [hempty] at hperm
    exact List.perm_singleton.mp hperm

theorem swapping (h : node.WellFormed) {a b : PaneId} (ha : a ∈ node.allPaneIds)
    (hb : b ∈ node.allPaneIds) : (node.swapping a b).WellFormed ∧
      (node.swapping a b).allPaneIds = node.allPaneIds.map (exchanging a b) := by
  have hmapped : (node.mapLeaves (exchanging a b)).WellFormed :=
    ⟨mapLeaves_shaped _ h.shaped, by
      rw [mapLeaves_allPaneIds]
      exact h.nodup.map (exchanging_injective a b)⟩
  by_cases hab : a = b
  · have hid : exchanging a b = id := by
      funext pane
      simp only [exchanging, hab, id]
      grind
    have hself : node.swapping a b = node := by simp [SplitNode.swapping, hab]
    rw [hself, hid, List.map_id]
    exact ⟨h, rfl⟩
  · simp only [SplitNode.swapping, hab, contains_iff.mpr ha, contains_iff.mpr hb, Bool.not_true,
      decide_false, Bool.or_self, Bool.false_eq_true, if_false]
    exact ⟨hmapped, mapLeaves_allPaneIds ..⟩

end WellFormed

/-- The operations of the tree, over any well-formed one.

An insertion, beside a leaf or at a root edge, and a swap give well-formed
trees with the new pane next to its target, the new pane at that end, or
the two panes exchanged; a removal gives the others in their order, or
nothing when the pane was the only one. A pane that was just inserted,
removed again, leaves the tree as it was but for the flex shares. -/
theorem operations_keep (node : SplitNode) (h : node.WellFormed) :
    (∀ leaf target axis before fresh, target ∈ node.allPaneIds → leaf ∉ node.allPaneIds →
      ∃ grown, node.insertingBeside leaf target axis before fresh = some grown ∧
        node.splitting target axis leaf before fresh = some grown ∧ grown.WellFormed ∧
        grown.allPaneIds = placedBeside leaf target before node.allPaneIds ∧
        ∃ back, grown.removing leaf = some back ∧ back.rebalanced = node.rebalanced) ∧
    (∀ leaf axis before fresh, leaf ∉ node.allPaneIds →
      (node.insertingAtRoot leaf axis before fresh).WellFormed ∧
        (node.insertingAtRoot leaf axis before fresh).allPaneIds =
          (if before then leaf :: node.allPaneIds else node.allPaneIds ++ [leaf]) ∧
        ∃ back, (node.insertingAtRoot leaf axis before fresh).removing leaf = some back ∧
          back.rebalanced = node.rebalanced) ∧
    (∀ target ∈ node.allPaneIds,
      match node.removing target with
      | some pruned => pruned.WellFormed ∧ pruned.allPaneIds = node.allPaneIds.erase target
      | none => node.allPaneIds = [target]) ∧
    (∀ a ∈ node.allPaneIds, ∀ b ∈ node.allPaneIds,
      (node.swapping a b).WellFormed ∧
        (node.swapping a b).allPaneIds = node.allPaneIds.map (exchanging a b)) := by
  refine ⟨fun leaf target axis before fresh htarget hfresh => ?_,
    fun leaf axis before fresh hfresh => ?_, fun target htarget => h.removing htarget,
    fun a ha b hb => h.swapping ha hb⟩
  · obtain ⟨grown, hgrown, hrest⟩ := h.insertingBeside htarget hfresh
    exact ⟨grown, hgrown, hgrown, hrest⟩
  · obtain ⟨hwell, hback⟩ := h.insertingAtRoot hfresh
    exact ⟨hwell, insertingAtRoot_allPaneIds node, hback⟩

end SplitNode

/-- The identity whose bytes are all `byte`. -/
def uniform (byte : UInt8) : RawUuid := ⟨List.replicate 16 byte, List.length_replicate⟩

/-- Rows, the first of them columns whose first is rows again. -/
def nested : SplitNode :=
  .split (uniform 9) .vertical
    [⟨.flex F64.one, .split (uniform 8) .horizontal
      [⟨.flex F64.one, .split (uniform 7) .vertical [.leaf (uniform 1), .leaf (uniform 2)]⟩,
        .leaf (uniform 3)]⟩,
      .leaf (uniform 4)]

/-- Closing the second column floats the inner rows up beside the last
one, where they join its rows. -/
theorem SplitNode.operations_keep_nested :
    nested.removing (uniform 3) = some (.split (uniform 9) .vertical
        [.leaf (uniform 1), .leaf (uniform 2), .leaf (uniform 4)]) ∧
      match nested.removing (uniform 3) with
      | some pruned => pruned.WellFormed ∧
          pruned.allPaneIds = nested.allPaneIds.erase (uniform 3)
      | none => nested.allPaneIds = [uniform 3] := by
  have hpair : ∀ {id axis a b}, Shaped a.node → Shaped b.node → a.node.axis? ≠ some axis →
      b.node.axis? ≠ some axis → Shaped (.split id axis [a, b]) := by
    intro id axis a b ha hb hca hcb
    refine .split (by simp) (fun child hc => ?_) (fun child hc => ?_)
    · simp at hc
      rcases hc with rfl | rfl <;> assumption
    · simp at hc
      rcases hc with rfl | rfl <;> assumption
  have hnested : nested.WellFormed := by
    refine ⟨hpair (hpair (hpair .leaf .leaf ?_ ?_) .leaf ?_ ?_) .leaf ?_ ?_, by decide +kernel⟩ <;>
      simp [WeightedChild.leaf, axis?]
  exact ⟨by decide +kernel,
    (SplitNode.operations_keep nested hnested).2.2.1 (uniform 3) (by decide +kernel)⟩

end SlopDesk.Tree
