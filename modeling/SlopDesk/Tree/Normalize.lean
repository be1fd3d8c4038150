/-
SlopDesk.Tree.Normalize — the repair of a split tree, and that one pass of
it is enough (`slopdesk-tree/src/split_tree.rs`, `normalized`).

A repair walks the leaves in order and asks of each whether its pane was
used before. So it is taken in two halves: what it makes of the panes it
reaches, which is a walk over a list, and what it makes of the shape, which
every split is left in by the repair of its children.

  §1 The pass.
  §2 The leaves  — `reached`, and the walk over them.
  §3 The shape   — `Repaired`, which is what a pass leaves.
  §4 The fixed points, and the whole of it.
-/
import Mathlib.Data.List.ReduceOption
import SlopDesk.Tree.SplitTreeTheorems

namespace SlopDesk.Tree

open SlopDesk.Base

/-! ## §1 The pass -/

/-- `DUPLICATE_MINT_ATTEMPTS`. -/
def duplicateMintAttempts : Nat := 8

/-- Where a repair stands: the panes it has used, and what `mint` is still
to give. -/
structure Repairing where
  seen : BTreeSet PaneId
  mint : Stream' PaneId

namespace Repairing

/-- `accept_leaf`, with this many attempts to go. -/
def accepting (s : Repairing) : Nat → PaneId → PaneId × Repairing
  | 0, candidate => (candidate, { s with seen := s.seen.insert candidate })
  | attempts + 1, candidate =>
    if s.seen.contains candidate then accepting ⟨s.seen, s.mint.tail⟩ attempts s.mint.head
    else (candidate, { s with seen := s.seen.insert candidate })

def acceptLeaf (s : Repairing) (id : PaneId) : PaneId × Repairing :=
  s.accepting duplicateMintAttempts id

/-- `accept_leaf`, of an identity minted. -/
def acceptMinted (s : Repairing) : PaneId × Repairing :=
  Repairing.acceptLeaf ⟨s.seen, s.mint.tail⟩ s.mint.head

end Repairing

namespace SplitNode

mutual

def firstLeafRepaired : SplitNode → Repairing → SplitNode × Repairing
  | .leaf id, s =>
    let (id, s) := s.acceptLeaf id
    (.leaf id, s)
  | .split _ _ children, s => firstOfRepaired children s

def firstOfRepaired : List WeightedChild → Repairing → SplitNode × Repairing
  | [], s =>
    let (id, s) := s.acceptMinted
    (.leaf id, s)
  | ⟨_, node⟩ :: _, s => firstLeafRepaired node s

end

/-- What a split becomes when these are its repaired children: nothing, the
only one of them, or a split. -/
def regathered (id : SplitNodeId) (axis : SplitAxis) : List WeightedChild → Option SplitNode
  | [] => none
  | [child] => some child.node
  | repaired => some (.split id axis repaired)

mutual

def normalizeImpl : SplitNode → Nat → Repairing → Option SplitNode × Repairing
  | .leaf id, _, s =>
    let (id, s) := s.acceptLeaf id
    (some (.leaf id), s)
  | .split id axis children, depth, s =>
    if depth + 1 ≥ maxDepth then
      let (first, s) := firstOfRepaired children s
      (some first, s)
    else
      let (repaired, s) := normalizeChildren children axis (depth + 1) s
      (regathered id axis repaired, s)

/-- The loop of `normalize_impl`: a child that comes back as a split on its
parent's axis is replaced by its own children. -/
def normalizeChildren : List WeightedChild → SplitAxis → Nat → Repairing →
    List WeightedChild × Repairing
  | [], _, _, s => ([], s)
  | ⟨weight, node⟩ :: rest, axis, depth, s =>
    let (node, s) := normalizeImpl node depth s
    let (others, s) := normalizeChildren rest axis depth s
    match node with
    | none => (others, s)
    | some node => (mergeSameAxis [⟨weight.repaired, node⟩] axis ++ others, s)

end

def normalized (node : SplitNode) (mint : Stream' PaneId) : Option SplitNode × Stream' PaneId :=
  let (repaired, s) := node.normalizeImpl 0 ⟨∅, mint⟩
  (repaired, s.mint)

theorem normalizeChildren_cons (child : WeightedChild) (rest : List WeightedChild) (axis : SplitAxis)
    (depth : Nat) (s : Repairing) : normalizeChildren (child :: rest) axis depth s =
      (mergeSameAxis ((child.node.normalizeImpl depth s).1.map fun node =>
          (⟨child.weight.repaired, node⟩ : WeightedChild)).toList axis ++
        (normalizeChildren rest axis depth (child.node.normalizeImpl depth s).2).1,
      (normalizeChildren rest axis depth (child.node.normalizeImpl depth s).2).2) := by
  obtain ⟨weight, node⟩ := child
  rw [normalizeChildren]
  cases h : (node.normalizeImpl depth s).1 <;> simp [h, mergeSameAxis]

/-! ## §2 The leaves -/

mutual

/-- The panes a repair reaches, in order: every leaf, but for a subtree
past the cap only its first, which is nothing when the first way down ends
in a split without children. -/
def reached : SplitNode → Nat → List (Option PaneId)
  | .leaf id, _ => [some id]
  | .split _ _ children, depth =>
    if depth + 1 ≥ maxDepth then [firstLeafIdOf children] else reachedOf children (depth + 1)

def reachedOf : List WeightedChild → Nat → List (Option PaneId)
  | [], _ => []
  | ⟨_, node⟩ :: rest, depth => reached node depth ++ reachedOf rest depth

end

theorem reachedOf_eq (children : List WeightedChild) (depth : Nat) :
    reachedOf children depth = children.flatMap fun child => child.node.reached depth := by
  induction children with
  | nil => rfl
  | cons child rest ih =>
    obtain ⟨weight, node⟩ := child
    simp [reachedOf, ih]

end SplitNode

namespace Repairing

/-- One pane reached: it is accepted, or a minted one is. -/
def accept (s : Repairing) : Option PaneId → PaneId × Repairing
  | some id => s.acceptLeaf id
  | none => s.acceptMinted

/-- The panes reached, accepted one after the other. -/
def acceptAll : List (Option PaneId) → Repairing → List PaneId × Repairing
  | [], s => ([], s)
  | pane :: rest, s =>
    let (id, s) := s.accept pane
    let (ids, s) := acceptAll rest s
    (id :: ids, s)

theorem acceptAll_append (xs ys : List (Option PaneId)) (s : Repairing) : acceptAll (xs ++ ys) s =
      ((acceptAll xs s).1 ++ (acceptAll ys (acceptAll xs s).2).1,
        (acceptAll ys (acceptAll xs s).2).2) := by
  induction xs generalizing s with
  | nil => rfl
  | cons x xs ih => simp [acceptAll, ih]

theorem acceptAll_length (xs : List (Option PaneId)) (s : Repairing) :
    (acceptAll xs s).1.length = xs.length := by
  induction xs generalizing s with
  | nil => rfl
  | cons x xs ih => simp [acceptAll, ih]

end Repairing

namespace SplitNode

variable {depth : Nat} {node : SplitNode}

/-- The leaves of a tree that may have gone. -/
def leavesOf (node : Option SplitNode) : List PaneId := (node.map allPaneIds).getD []

theorem firstLeafRepaired_spec (node : SplitNode) (s : Repairing) :
    node.firstLeafRepaired s = (.leaf (s.accept node.firstLeafId).1, (s.accept node.firstLeafId).2) := by
  induction node with
  | leaf id => rfl
  | split id axis children ih =>
    cases children with
    | nil => rfl
    | cons child rest =>
      obtain ⟨weight, node⟩ := child
      exact ih ⟨weight, node⟩ (by simp)

theorem firstOfRepaired_spec (children : List WeightedChild) (s : Repairing) : firstOfRepaired children s =
      (.leaf (s.accept (firstLeafIdOf children)).1, (s.accept (firstLeafIdOf children)).2) := by
  cases children with
  | nil => rfl
  | cons child rest =>
    obtain ⟨weight, node⟩ := child
    exact firstLeafRepaired_spec node s

theorem regathered_leaves (id : SplitNodeId) (axis : SplitAxis) (children : List WeightedChild) :
    leavesOf (regathered id axis children) = children.flatMap fun child => child.node.allPaneIds := by
  match children with
  | [] => rfl
  | [child] => simp [regathered, leavesOf]
  | first :: second :: rest => simp [regathered, leavesOf]

/-- The leaves of a repaired tree are the panes reached, accepted in
order. -/
theorem normalizeImpl_leaves (node : SplitNode) (depth : Nat) (s : Repairing) :
    (leavesOf (node.normalizeImpl depth s).1, (node.normalizeImpl depth s).2) =
      Repairing.acceptAll (node.reached depth) s := by
  induction node generalizing depth s with
  | leaf id => rfl
  | split id axis children ih =>
    rw [normalizeImpl, reached]
    split
    · simp [firstOfRepaired_spec, Repairing.acceptAll, leavesOf]
    · have hchildren : ∀ s,
          ((normalizeChildren children axis (depth + 1) s).1.flatMap fun child =>
            child.node.allPaneIds, (normalizeChildren children axis (depth + 1) s).2) =
          Repairing.acceptAll (reachedOf children (depth + 1)) s := by
        induction children with
        | nil => exact fun s => rfl
        | cons child rest ihRest =>
          intro s
          have hnode := ih child (by simp) (depth + 1) s
          have hrest := ihRest (fun child h => ih child (List.mem_cons_of_mem _ h))
            (child.node.normalizeImpl (depth + 1) s).2
          rw [reachedOf_eq, List.flatMap_cons, ← reachedOf_eq, Repairing.acceptAll_append, ← hnode,
            ← hrest, normalizeChildren_cons, List.flatMap_append, mergeSameAxis_allPaneIds]
          cases (child.node.normalizeImpl (depth + 1) s).1 <;> simp [leavesOf]
      rw [← hchildren]
      simp [regathered_leaves]

theorem mem_of_reached {pane : PaneId} (h : some pane ∈ node.reached depth) : pane ∈ node.allPaneIds := by
  induction node generalizing depth with
  | leaf id => simpa [reached] using h
  | split id axis children ih =>
    rw [reached] at h
    split at h
    · have hfirst : (SplitNode.split id axis children).firstLeafId = some pane :=
        (List.mem_singleton.mp h).symm
      exact firstLeafId_mem hfirst
    · grind [reachedOf_eq, allPaneIds_split]

theorem depth_pos (node : SplitNode) : 1 ≤ node.depth := by
  cases node <;> simp [depth]

theorem reached_reduceOption (h : node.depth + depth ≤ maxDepth) :
    (node.reached depth).reduceOption = node.allPaneIds := by
  induction node generalizing depth with
  | leaf id => rfl
  | split id axis children ih =>
    rw [SplitNode.depth] at h
    rw [reached]
    split
    · -- a split this deep has no children
      cases children with
      | nil => rfl
      | cons child rest =>
        have hchild : child.node.depth ≤ depthOf (child :: rest) :=
          depthOf_le.mp le_rfl child (by simp)
        have hpos := child.node.depth_pos
        omega
    · rw [reachedOf_eq, allPaneIds_split]
      have hdepth : ∀ child ∈ children, child.node.depth + (depth + 1) ≤ maxDepth := by
        intro child hc
        have hle : child.node.depth ≤ depthOf children := depthOf_le.mp le_rfl child hc
        omega
      clear h
      induction children with
      | nil => rfl
      | cons child rest ihRest =>
        rw [List.flatMap_cons, List.flatMap_cons, List.reduceOption_append,
          ih child (by simp) (hdepth child (by simp)),
          ihRest (fun child hc => ih child (List.mem_cons_of_mem _ hc))
            fun child hc => hdepth child (List.mem_cons_of_mem _ hc)]

end SplitNode

/-! ### What is accepted -/

namespace Repairing

variable {s : Repairing}
variable {id : PaneId}

/-- The next identities of `mint`, as many as there are panes to accept,
are all new. -/
structure Supplied (s : Repairing) (panes : List (Option PaneId)) : Prop where
  nodup : (s.mint.take panes.length).Nodup
  unseen : ∀ id ∈ s.mint.take panes.length, id ∉ s.seen
  unlisted : ∀ id ∈ s.mint.take panes.length, some id ∉ panes

theorem acceptLeaf_unseen (h : id ∉ s.seen) :
    s.acceptLeaf id = (id, { s with seen := s.seen.insert id }) := by
  simp [acceptLeaf, duplicateMintAttempts, accepting, h]

theorem acceptLeaf_seen (h : id ∈ s.seen) (hmint : s.mint.head ∉ s.seen) :
    s.acceptLeaf id = (s.mint.head, ⟨s.seen.insert s.mint.head, s.mint.tail⟩) := by
  simp [acceptLeaf, duplicateMintAttempts, accepting, h, hmint]

theorem acceptMinted_unseen (hmint : s.mint.head ∉ s.seen) :
    s.acceptMinted = (s.mint.head, ⟨s.seen.insert s.mint.head, s.mint.tail⟩) :=
  acceptLeaf_unseen hmint

/-- One step of the walk: the pane itself, the first time, else an identity
minted. -/
theorem accept_supplied {pane : Option PaneId} {rest : List (Option PaneId)} (h : s.Supplied (pane :: rest)) :
    (s.accept pane).1 ∉ s.seen ∧
      (∀ id, id ∈ (s.accept pane).2.seen ↔ id = (s.accept pane).1 ∨ id ∈ s.seen) ∧
      (∀ id, pane = some id → id ∉ s.seen → (s.accept pane).1 = id) ∧
      (pane = some (s.accept pane).1 ∨ (s.accept pane).1 = s.mint.head) ∧
      (∀ id ∈ (s.accept pane).2.mint.take rest.length, id ∈ s.mint.take (rest.length + 1)) ∧
      (s.accept pane).2.Supplied rest := by
  obtain ⟨hnodup, hunseen, hunlisted⟩ := h
  rw [List.length_cons] at hnodup hunseen hunlisted
  have hhead : s.mint.head ∉ s.seen := hunseen _ (by simp [Stream'.take_succ])
  -- the stock after a draw, and the stock after none
  have hdrawn : Supplied ⟨s.seen.insert s.mint.head, s.mint.tail⟩ rest := by
    obtain ⟨hnew, hnodup⟩ := List.nodup_cons.mp hnodup
    refine ⟨hnodup, fun id hid hmem => ?_, fun id hid hmem => ?_⟩
    · rcases Std.ExtTreeSet.mem_insert.mp hmem with heq | hmem
      · exact hnew (Std.LawfulEqCmp.eq_of_compare heq ▸ hid)
      · exact hunseen id (List.mem_cons_of_mem _ hid) hmem
    · exact hunlisted id (List.mem_cons_of_mem _ hid) (List.mem_cons_of_mem _ hmem)
  have hkept : ∀ id, pane = some id → Supplied { s with seen := s.seen.insert id } rest := by
    intro id hpane
    have htake : s.mint.take (rest.length + 1) = s.mint.take rest.length ++ [s.mint.get rest.length] :=
      Stream'.take_succ' _
    rw [htake] at hnodup hunseen hunlisted
    refine ⟨(List.nodup_append.mp hnodup).1, fun other hother hmem => ?_, fun other hother hmem => ?_⟩
    · grind
    · exact hunlisted other (List.mem_append_left _ hother) (List.mem_cons_of_mem _ hmem)
  have hminted : ∀ id ∈ s.mint.tail.take rest.length, id ∈ s.mint.take (rest.length + 1) := by
    intro id hid
    exact List.mem_cons_of_mem _ hid
  have hstill : ∀ id ∈ s.mint.take rest.length, id ∈ s.mint.take (rest.length + 1) := by
    grind [Stream'.take_succ']
  have hmem : ∀ id other : PaneId, other ∈ s.seen.insert id ↔ other = id ∨ other ∈ s.seen := by
    intro id other
    rw [Std.ExtTreeSet.mem_insert, Std.LawfulEqCmp.compare_eq_iff_eq, eq_comm]
  cases pane with
  | none =>
    grind [accept, acceptMinted_unseen]
  | some id =>
    by_cases hid : id ∈ s.seen
    · grind [accept, acceptLeaf_seen]
    · simp only [accept, acceptLeaf_unseen hid]
      exact ⟨hid, hmem _, fun other heq _ => Option.some.inj heq, .inl trivial, hstill, hkept id rfl⟩

/-- What is accepted of a list of panes, with enough new identities at
hand: no pane twice, every pane in its place where it comes first, and
else identities minted. -/
theorem acceptAll_supplied {panes : List (Option PaneId)} (h : s.Supplied panes) :
    (acceptAll panes s).1.Nodup ∧ (∀ id ∈ (acceptAll panes s).1, id ∉ s.seen) ∧
      (∀ (i : Nat) (id : PaneId), panes[i]? = some (some id) → id ∉ s.seen →
        (∀ j < i, panes[j]? ≠ some (some id)) → (acceptAll panes s).1[i]? = some id) ∧
      ∀ id ∈ (acceptAll panes s).1, some id ∈ panes ∨ id ∈ s.mint.take panes.length := by
  induction panes generalizing s with
  | nil => simp [acceptAll]
  | cons pane rest ih =>
    obtain ⟨hnew, hseen, hfirst, hsource, hstock, hrest⟩ := accept_supplied h
    obtain ⟨hnodup, hfresh, hplaced, hsources⟩ := ih hrest
    refine ⟨?_, ?_, ?_, ?_⟩
    · refine List.nodup_cons.mpr ⟨fun hmem => ?_, hnodup⟩
      exact hfresh _ hmem ((hseen _).mpr (.inl rfl))
    · intro id hid
      rcases List.mem_cons.mp hid with rfl | hid
      · exact hnew
      · exact fun hold => hfresh id hid ((hseen id).mpr (.inr hold))
    · intro i id hi hid hbefore
      cases i with
      | zero => exact congrArg some (hfirst id (by simpa using hi) hid)
      | succ i =>
        have hne : pane ≠ some id := fun heq => hbefore 0 (by omega) (by simp [heq])
        refine hplaced i id (by simpa using hi) (fun hold => ?_) fun j hj => by
          simpa using hbefore (j + 1) (by omega)
        rcases (hseen id).mp hold with heq | hold
        · -- an identity minted is none of the panes
          rcases hsource with hsame | hsame
          · exact hne (heq ▸ hsame)
          · exact h.unlisted id (by simp [Stream'.take_succ, heq, hsame])
              (List.mem_of_getElem? hi)
        · exact hid hold
    · intro id hid
      rcases List.mem_cons.mp hid with rfl | hid
      · rcases hsource with hsame | hsame
        · exact .inl (hsame ▸ List.mem_cons_self)
        · have hdrawn : (s.accept pane).1 ∈ s.mint.take (rest.length + 1) := by
            simp [hsame, Stream'.take_succ]
          exact .inr hdrawn
      · exact (hsources id hid).imp (List.mem_cons_of_mem _) fun hmint => hstock id hmint

end Repairing

/-! ## §3 The shape -/

namespace SplitWeight

/-- A share within its bounds: finite, and not below its floor. -/
def Held : SplitWeight → Prop
  | .flex weight => weight.isFinite = true ∧ minWeight.le weight = true
  | .fixed points => points.isFinite = true ∧ F64.zero.le points = true

end SplitWeight

theorem floored {x floor : F64} (hx : x.isFinite = true) (hfloor : floor.isFinite = true) :
    (x.max floor).isFinite = true ∧ floor.le (x.max floor) = true ∧
      (floor.le x = true → x.max floor = x) := by
  have hnan : ∀ y : F64, y.isFinite = true → y.isNan = false := fun y hy => by
    simp only [F64.isFinite, decide_eq_true_eq] at hy
    simp [F64.isNan, hy]
  have hmax : x.max floor = if x.rank < floor.rank then floor else x := by
    simp [F64.max, F64.lt, hnan x hx, hnan floor hfloor]
  rw [hmax]
  simp only [F64.le, hnan floor hfloor]
  split <;> simp_all

namespace SplitWeight

theorem repaired_held (weight : SplitWeight) : weight.repaired.Held := by
  cases weight with
  | flex weight =>
    simp only [repaired, Held]
    split
    · rename_i h
      exact ⟨(floored h (by decide)).1, (floored h (by decide)).2.1⟩
    · decide
  | fixed points =>
    simp only [repaired, Held]
    split
    · rename_i h
      exact ⟨(floored h (by decide)).1, (floored h (by decide)).2.1⟩
    · decide

theorem Held.repaired {weight : SplitWeight} (h : weight.Held) : weight.repaired = weight := by
  cases weight with
  | flex weight => simp [SplitWeight.repaired, h.1, (floored h.1 (by decide)).2.2 h.2]
  | fixed points => simp [SplitWeight.repaired, h.1, (floored h.1 (by decide)).2.2 h.2]

end SplitWeight

/-- Every share of the tree is within its bounds. -/
inductive Weighed : SplitNode → Prop
  | leaf {pane : PaneId} : Weighed (.leaf pane)
  | split {id : SplitNodeId} {axis : SplitAxis} {children : List WeightedChild}
      (shares : ∀ child ∈ children, child.weight.Held) (nodes : ∀ child ∈ children, Weighed child.node) :
      Weighed (.split id axis children)

/-- A tree that holds every invariant of the module: two children or more
under a split, none of them along its axis, no pane twice, every share
within its bounds, and no nesting past the cap. -/
structure SplitNode.Sound (node : SplitNode) : Prop extends node.WellFormed where
  weighed : Weighed node
  shallow : node.depth ≤ maxDepth

namespace SplitNode

variable {depth : Nat} {axis : SplitAxis} {children : List WeightedChild} {id : SplitNodeId}
variable {node : SplitNode}

/-- What a repair makes of a node that many levels down. -/
structure Repaired (depth : Nat) (node : SplitNode) : Prop where
  shaped : Shaped node
  weighed : Weighed node
  shallow : node.depth + depth ≤ maxDepth

theorem Repaired.leaf (h : depth < maxDepth) (pane : PaneId) : Repaired depth (.leaf pane) :=
  ⟨.leaf, .leaf, by simp only [SplitNode.depth]; omega⟩

/-- A merge of one child gives the child, or the children of a split along
that axis. -/
theorem mem_mergeSameAxis {child merged : WeightedChild} (h : merged ∈ mergeSameAxis [child] axis) :
    (merged = child ∧ child.node.axis? ≠ some axis) ∨
      ∃ id children, child.node = .split id axis children ∧ merged ∈ children := by
  cases hnode : child.node with
  | leaf pane =>
    refine .inl ⟨?_, by simp [axis?]⟩
    simpa [mergeSameAxis, hnode] using h
  | split id childAxis children =>
    by_cases haxis : childAxis = axis
    · subst haxis
      exact .inr ⟨id, children, rfl, by simpa [mergeSameAxis, hnode] using h⟩
    · refine .inl ⟨?_, by simpa [axis?] using haxis⟩
      simpa [mergeSameAxis, hnode, haxis] using h

theorem Repaired.merged {child merged : WeightedChild}
    (hnode : Repaired depth child.node) (hweight : child.weight.Held)
    (h : merged ∈ mergeSameAxis [child] axis) :
    Repaired depth merged.node ∧ merged.weight.Held ∧ merged.node.axis? ≠ some axis := by
  obtain ⟨rfl, hcrossed⟩ | ⟨id, children, heq, hmem⟩ := mem_mergeSameAxis h
  · exact ⟨hnode, hweight, hcrossed⟩
  · obtain ⟨hshaped, hweighed, hshallow⟩ := heq ▸ hnode
    cases hshaped with
    | split arity nodes crossed =>
      cases hweighed with
      | split shares weighed =>
        have hdepth : merged.node.depth ≤ depthOf children := depthOf_le.mp le_rfl merged hmem
        rw [SplitNode.depth] at hshallow
        exact ⟨⟨nodes merged hmem, weighed merged hmem, by omega⟩, shares merged hmem,
          crossed merged hmem⟩

theorem regathered_repaired (h : ∀ child ∈ children, Repaired (depth + 1) child.node ∧ child.weight.Held ∧
      child.node.axis? ≠ some axis)
    (hnode : regathered id axis children = some node) : Repaired depth node := by
  match children with
  | [] => simp [regathered] at hnode
  | [child] =>
    obtain rfl : child.node = node := by simpa [regathered] using hnode
    obtain ⟨⟨hshaped, hweighed, hshallow⟩, -, -⟩ := h child (by simp)
    exact ⟨hshaped, hweighed, by omega⟩
  | first :: second :: rest =>
    obtain rfl : SplitNode.split id axis (first :: second :: rest) = node := by
      simpa [regathered] using hnode
    have hdepth : depthOf (first :: second :: rest) ≤ maxDepth - (depth + 1) :=
      depthOf_le.mpr fun child hc => by
        have := (h child hc).1.shallow
        omega
    have hfirst := (h first (by simp)).1.shallow
    refine ⟨.split (by simp) (fun child hc => (h child hc).1.shaped) fun child hc => (h child hc).2.2,
      .split (fun child hc => (h child hc).2.1) fun child hc => (h child hc).1.weighed, ?_⟩
    rw [SplitNode.depth]
    omega

theorem normalizeImpl_repaired {repaired : SplitNode} {s : Repairing}
    (hdepth : depth < maxDepth) (h : (node.normalizeImpl depth s).1 = some repaired) :
    Repaired depth repaired := by
  induction node generalizing depth s repaired with
  | leaf id =>
    obtain rfl : .leaf (s.acceptLeaf id).1 = repaired := by simpa [normalizeImpl] using h
    exact .leaf hdepth _
  | split id axis children ih =>
    rw [normalizeImpl] at h
    split at h
    · rw [firstOfRepaired_spec] at h
      obtain rfl := Option.some.inj h
      exact .leaf hdepth _
    · have hchildren : ∀ s, ∀ child ∈ (normalizeChildren children axis (depth + 1) s).1,
          Repaired (depth + 1) child.node ∧ child.weight.Held ∧ child.node.axis? ≠ some axis := by
        clear h
        induction children with
        | nil =>
          intro s child hc
          simp [normalizeChildren] at hc
        | cons first rest ihRest =>
          intro s child hc
          rw [normalizeChildren_cons] at hc
          rcases List.mem_append.mp hc with hc | hc
          · cases hfirst : (first.node.normalizeImpl (depth + 1) s).1 with
            | none => simp [hfirst, mergeSameAxis] at hc
            | some node =>
              rw [hfirst] at hc
              exact (ih first (by simp) (by omega) hfirst).merged (SplitWeight.repaired_held _) hc
          · exact ihRest (fun child h => ih child (List.mem_cons_of_mem _ h)) _ child hc
      exact regathered_repaired (hchildren s) h

/-! ## §4 The fixed points -/

theorem Repaired.child
    (h : Repaired depth (.split id axis children)) {child : WeightedChild} (hc : child ∈ children) :
    Repaired (depth + 1) child.node := by
  obtain ⟨hshaped, hweighed, hshallow⟩ := h
  rw [SplitNode.depth] at hshallow
  have hle : child.node.depth ≤ depthOf children := depthOf_le.mp le_rfl child hc
  cases hshaped with
  | split arity nodes crossed =>
    cases hweighed with
    | split shares weighed => exact ⟨nodes child hc, weighed child hc, by omega⟩

theorem Repaired.below (h : Repaired depth (.split id axis children)) : ¬ depth + 1 ≥ maxDepth := by
  have harity : 2 ≤ children.length := by
    cases h.shaped with
    | split arity nodes crossed => exact arity
  obtain ⟨first, hfirst⟩ := List.exists_mem_of_length_pos (by omega : 0 < children.length)
  have hpos := first.node.depth_pos
  have hle := (h.child hfirst).shallow
  omega

/-- Within the cap, what a repair reaches of a tree with no empty split is
its panes. -/
theorem Repaired.reached (h : Repaired depth node) : node.reached depth = node.allPaneIds.map some := by
  induction node generalizing depth with
  | leaf => rfl
  | split id axis children ih =>
    rw [SplitNode.reached, if_neg h.below, reachedOf_eq, allPaneIds_split, List.map_flatMap]
    exact List.flatMap_congr fun child hc => ih child hc (h.child hc)

end SplitNode

/-- Panes that are all new, and no two the same, are accepted as they are,
and nothing is minted. -/
theorem Repairing.acceptAll_unseen {panes : List PaneId} {s : Repairing} (hnodup : panes.Nodup)
    (h : ∀ id ∈ panes, id ∉ s.seen) : (acceptAll (panes.map some) s).2.mint = s.mint ∧
      ∀ id, id ∈ (acceptAll (panes.map some) s).2.seen ↔ id ∈ s.seen ∨ id ∈ panes := by
  induction panes generalizing s with
  | nil => simp [acceptAll]
  | cons pane rest ih =>
    have hstep : acceptAll ((pane :: rest).map some) s =
        (pane :: (acceptAll (rest.map some) { s with seen := s.seen.insert pane }).1,
          (acceptAll (rest.map some) { s with seen := s.seen.insert pane }).2) := by
      simp [acceptAll, accept, acceptLeaf_unseen (h pane (by simp))]
    grind

namespace SplitNode

variable {depth : Nat} {node : SplitNode} {s : Repairing}

theorem Repaired.left (h : Repaired depth node)
    (hnodup : node.allPaneIds.Nodup) (hseen : ∀ id ∈ node.allPaneIds, id ∉ s.seen) :
    (node.normalizeImpl depth s).2.mint = s.mint ∧
      ∀ id, id ∈ (node.normalizeImpl depth s).2.seen ↔ id ∈ s.seen ∨ id ∈ node.allPaneIds := by
  have hleaves := congrArg Prod.snd (normalizeImpl_leaves node depth s)
  rw [h.reached] at hleaves
  rw [hleaves]
  exact Repairing.acceptAll_unseen hnodup hseen

theorem normalizeChildren_fixed {children : List WeightedChild} {axis : SplitAxis}
    (ih : ∀ child ∈ children, ∀ s : Repairing, child.node.allPaneIds.Nodup →
      (∀ id ∈ child.node.allPaneIds, id ∉ s.seen) →
        (child.node.normalizeImpl depth s).1 = some child.node)
    (hchild : ∀ child ∈ children, Repaired depth child.node) (shares : ∀ child ∈ children, child.weight.Held)
    (crossed : ∀ child ∈ children, child.node.axis? ≠ some axis)
    (hnodup : (children.flatMap fun child => child.node.allPaneIds).Nodup)
    (hseen : ∀ id ∈ children.flatMap fun child => child.node.allPaneIds, id ∉ s.seen) :
    (normalizeChildren children axis depth s).1 = children := by
  induction children generalizing s with
  | nil => rfl
  | cons child rest ihRest =>
    simp only [List.forall_mem_cons] at ih hchild shares crossed
    obtain ⟨hhere, hothers, hdisjoint⟩ := List.nodup_append.mp hnodup
    have hnew : ∀ id ∈ child.node.allPaneIds, id ∉ s.seen := fun id hid =>
      hseen id (List.mem_append_left _ hid)
    obtain ⟨-, hleft⟩ := hchild.1.left hhere hnew
    have hunseen : ∀ id ∈ rest.flatMap fun child => child.node.allPaneIds,
        id ∉ (child.node.normalizeImpl depth s).2.seen := by
      grind
    have hmerged : mergeSameAxis [child] axis = [child] :=
      mergeSameAxis_eq_self fun other hc => List.mem_singleton.mp hc ▸ crossed.1
    rw [normalizeChildren_cons, ihRest ih.2 hchild.2 shares.2 crossed.2 hothers hunseen,
      ih.1 s hhere hnew, Option.map_some, shares.1.repaired, WeightedChild.eta, Option.toList_some,
      hmerged, List.singleton_append]

theorem Repaired.fixed (h : Repaired depth node)
    (hnodup : node.allPaneIds.Nodup) (hseen : ∀ id ∈ node.allPaneIds, id ∉ s.seen) :
    (node.normalizeImpl depth s).1 = some node := by
  induction node generalizing depth s with
  | leaf id => simp [normalizeImpl, Repairing.acceptLeaf_unseen (hseen id (by simp))]
  | split id axis children ih =>
    cases h.shaped with
    | split arity nodes crossed =>
      cases h.weighed with
      | split shares weighed =>
        rw [allPaneIds_split] at hnodup hseen
        have hchildren : (normalizeChildren children axis (depth + 1) s).1 = children :=
          normalizeChildren_fixed (fun child hc _ => ih child hc (h.child hc)) (fun child hc => h.child hc)
            shares crossed hnodup hseen
        match children, arity with
        | first :: second :: rest, _ =>
          rw [normalizeImpl, if_neg h.below]
          simp only [hchildren]
          rfl

theorem Sound.normalized (h : node.Sound) (mint : Stream' PaneId) :
    node.normalized mint = (some node, mint) := by
  have hrepaired : Repaired 0 node := ⟨h.shaped, h.weighed, h.shallow⟩
  have hseen : ∀ id ∈ node.allPaneIds, id ∉ (⟨∅, mint⟩ : Repairing).seen := fun id _ =>
    Std.ExtTreeSet.not_mem_empty
  exact Prod.ext (hrepaired.fixed h.nodup hseen) (hrepaired.left h.nodup hseen).1

/-- `mint` gives fresh identities: as many different ones as the repair
reaches panes, none of them in the tree. -/
structure SuppliedBy (node : SplitNode) (mint : Stream' PaneId) : Prop where
  nodup : (mint.take (node.reached 0).length).Nodup
  fresh : ∀ id ∈ mint.take (node.reached 0).length, id ∉ node.allPaneIds

theorem leavesOf_normalized (node : SplitNode) (mint : Stream' PaneId) :
    leavesOf (node.normalized mint).1 = (Repairing.acceptAll (node.reached 0) ⟨∅, mint⟩).1 :=
  congrArg Prod.fst (normalizeImpl_leaves node 0 ⟨∅, mint⟩)

theorem leavesOf_normalized_length (node : SplitNode) (mint : Stream' PaneId) :
    (leavesOf (node.normalized mint).1).length = (node.reached 0).length := by
  rw [leavesOf_normalized, Repairing.acceptAll_length]

namespace SuppliedBy

variable {node : SplitNode} {mint : Stream' PaneId}

theorem supplied (h : node.SuppliedBy mint) : Repairing.Supplied ⟨∅, mint⟩ (node.reached 0) :=
  ⟨h.nodup, fun _ _ => Std.ExtTreeSet.not_mem_empty,
    fun id hid hmem => h.fresh id hid (mem_of_reached hmem)⟩

theorem sound {repaired : SplitNode} (h : node.SuppliedBy mint)
    (hresult : (node.normalized mint).1 = some repaired) : repaired.Sound := by
  obtain ⟨hnodup, -, -, -⟩ := Repairing.acceptAll_supplied h.supplied
  rw [← leavesOf_normalized, hresult] at hnodup
  have hrepaired : Repaired 0 repaired := normalizeImpl_repaired (by decide) hresult
  exact ⟨⟨hrepaired.shaped, hnodup⟩, hrepaired.weighed, hrepaired.shallow⟩

end SuppliedBy

/-- The repair of any tree, with fresh identities to draw.

What it leaves holds every invariant, and a second pass leaves that as it
is; every pane it reaches is kept in its place where it comes first, and
the others are minted. Nothing is left of a tree where it reaches no pane.
It reaches every pane of a tree that is nested no deeper than the cap, and
leaves a sound tree as it is, without drawing an identity. -/
theorem normalized_repairs (node : SplitNode) (mint : Stream' PaneId) :
    (node.SuppliedBy mint →
      match (node.normalized mint).1 with
      | none => node.reached 0 = []
      | some repaired => repaired.Sound ∧
          (∀ mint', repaired.normalized mint' = (some repaired, mint')) ∧
          repaired.allPaneIds.length = (node.reached 0).length ∧
          (∀ (i : Nat) (pane : PaneId), (node.reached 0)[i]? = some (some pane) →
            (∀ j < i, (node.reached 0)[j]? ≠ some (some pane)) →
              repaired.allPaneIds[i]? = some pane) ∧
          ∀ pane ∈ repaired.allPaneIds,
            pane ∈ node.allPaneIds ∨ pane ∈ mint.take (node.reached 0).length) ∧
    (node.depth ≤ maxDepth → (node.reached 0).reduceOption = node.allPaneIds) ∧
    (node.Sound → node.normalized mint = (some node, mint)) := by
  refine ⟨fun hmint => ?_, fun h => reached_reduceOption (by simpa using h), fun h => h.normalized mint⟩
  obtain ⟨-, -, hplaced, hsource⟩ := Repairing.acceptAll_supplied hmint.supplied
  have hlength := leavesOf_normalized_length node mint
  rw [← leavesOf_normalized] at hplaced hsource
  cases hresult : (node.normalized mint).1 with
  | none =>
    rw [hresult] at hlength
    exact List.length_eq_zero_iff.mp hlength.symm
  | some repaired =>
    rw [hresult] at hplaced hsource hlength
    have hsound : repaired.Sound := hmint.sound hresult
    exact ⟨hsound, hsound.normalized, hlength,
      fun i pane hi => hplaced i pane hi Std.ExtTreeSet.not_mem_empty,
      fun pane hpane => (hsource pane hpane).imp_left mem_of_reached⟩

/-- A tree nested this deep, each level with a pane of its own beside the
next. -/
def tower : Nat → SplitNode
  | 0 => .leaf (uniform 1)
  | level + 1 =>
    .split (uniform (.ofNat level)) (if level % 2 = 0 then .horizontal else .vertical)
      [⟨.flex F64.one, tower level⟩, .leaf (uniform (.ofNat (100 + level)))]

/-- An identity after another. -/
def counting : Stream' PaneId := fun n => uniform (.ofNat (50 + n))

/-- The innermost split of a tree one level too deep collapses to its first
leaf, and the pane beside that is gone. -/
theorem normalized_drops :
    (tower 12).SuppliedBy counting ∧ uniform 100 ∈ (tower 12).allPaneIds ∧
      uniform 100 ∉ leavesOf ((tower 12).normalized counting).1 := by
  refine ⟨⟨by decide +kernel, by decide +kernel⟩, by decide +kernel, by decide +kernel⟩

end SplitNode

end SlopDesk.Tree
