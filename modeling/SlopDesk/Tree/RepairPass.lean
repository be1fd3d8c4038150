/-
SlopDesk.Tree.RepairPass — the repair of a loaded tree, and the retiling of a tab.
-/
import SlopDesk.Tree.Edits

/-! # The repair a loader runs, and the identities it
may spend (`slopdesk-tree/src/tree_ops.rs`, `RepairPass` and `repaired`).

The loader mints a pool before the pass runs, of a size read off the shape
of the workspace. What a pass draws is counted here as the steps from the
source it is given to the one it leaves.
-/

namespace SlopDesk.Tree

open SlopDesk.Base

variable (ws : TreeWorkspace)

inductive RepairPass where
  | specs
  | active
  | normalized
  | launchRestore
  deriving DecidableEq

/-- `usize::MAX`. -/
def usizeMax : Nat := 18446744073709551615

namespace RepairPass

/-- `ALL`. -/
def all : List RepairPass := [.specs, .active, .normalized, .launchRestore]

def ffiByte : RepairPass → UInt8
  | .specs => 0
  | .active => 1
  | .normalized => 2
  | .launchRestore => 3

def fromByte (byte : UInt8) : Option RepairPass := all.find? fun pass => pass.ffiByte = byte

/-- `minted_ids`: every operation saturates. -/
def mintedIds (sessions detached : Nat) : Nat :=
  min (min (3 + min (sessions * 2) usizeMax) usizeMax + min (detached * 2) usizeMax) usizeMax

end RepairPass

/-- `redocking_detached_panes`, with what it leaves of the source. -/
def redocked (ws : TreeWorkspace) (ids : IdSource) : TreeWorkspace × IdSource :=
  let next := ws.droppingVideoPanes
  if next.sessions.all fun s => s.detached.isEmpty then next.normalized ids
  else
    let activeTabs := next.sessions.map fun s => (s.id, s.activeTabIndex)
    let (docked, ids) := reattachAll next.detachedPaneIds next ids
    let restored : TreeWorkspace :=
      ⟨activeTabs.foldl restoreActiveTab docked.sessions, next.activeSessionId⟩
    restored.normalized ids

def repaired (ws : TreeWorkspace) (pass : RepairPass) (ids : IdSource) : TreeWorkspace × IdSource :=
  match pass with
  | .specs => (ws.normalizingSpecs, ids)
  | .active => ws.normalizingActive ids
  | .normalized => ws.normalized ids
  | .launchRestore => redocked ws ids

/-! ## Identities drawn -/

namespace IdSource

/-- This many identities, of whatever kinds, drawn from one source leave
the other. -/
inductive Draws : Nat → IdSource → IdSource → Prop
  | none {ids : IdSource} : Draws 0 ids ids
  | pane {n : Nat} {ids left : IdSource} : Draws n ids.pane.2 left → Draws (n + 1) ids left
  | tab {n : Nat} {ids left : IdSource} : Draws n ids.tab.2 left → Draws (n + 1) ids left
  | session {n : Nat} {ids left : IdSource} : Draws n ids.session.2 left → Draws (n + 1) ids left
  | split {n : Nat} {ids left : IdSource} : Draws n ids.split.2 left → Draws (n + 1) ids left

theorem Draws.trans {m n : Nat} {ids middle left : IdSource} (h : Draws m ids middle)
    (h' : Draws n middle left) : Draws (m + n) ids left := by
  induction h with
  | none => rwa [Nat.zero_add]
  | pane _ ih => exact Nat.succ_add _ n ▸ .pane (ih h')
  | tab _ ih => exact Nat.succ_add _ n ▸ .tab (ih h')
  | session _ ih => exact Nat.succ_add _ n ▸ .session (ih h')
  | split _ ih => exact Nat.succ_add _ n ▸ .split (ih h')

/-- At most this many drawn. -/
def Spends (limit : Nat) (ids left : IdSource) : Prop := ∃ n ≤ limit, Draws n ids left

variable {m n : Nat} {ids middle left : IdSource}

theorem Spends.refl : Spends n ids ids := ⟨0, by omega, .none⟩

theorem Spends.trans (h : Spends m ids middle) (h' : Spends n middle left) : Spends (m + n) ids left := by
  obtain ⟨a, ha, hdraws⟩ := h
  obtain ⟨b, hb, hdraws'⟩ := h'
  exact ⟨a + b, by omega, hdraws.trans hdraws'⟩

theorem Spends.mono (h : Spends m ids left) (hle : m ≤ n) : Spends n ids left := by
  obtain ⟨a, ha, hdraws⟩ := h
  exact ⟨a, by omega, hdraws⟩

end IdSource

open IdSource

theorem seeded_spends (s : Session) (ids : IdSource) : Spends 2 ids (s.seeded ids).2 := by
  rw [Session.seeded]
  split
  · exact ⟨2, le_rfl, .tab (.pane .none)⟩
  · exact .refl

theorem normalizedSessions_spends (sessions : List Session) (ids : IdSource) :
    Spends (2 * sessions.length) ids (TreeWorkspace.normalizedSessions sessions ids).2 := by
  induction sessions generalizing ids with
  | nil => exact .refl
  | cons s rest ih =>
    rw [List.length_cons, Nat.mul_add, Nat.add_comm]
    exact (seeded_spends s ids).trans (ih (s.seeded ids).2)

theorem normalizingActive_spends (ids : IdSource) :
    Spends (3 + 2 * ws.sessions.length) ids (ws.normalizingActive ids).2 := by
  rw [TreeWorkspace.normalizingActive]
  split
  · exact ⟨3, by omega, .session (.tab (.pane .none))⟩
  · exact (normalizedSessions_spends ws.sessions ids).mono (by omega)

theorem normalized_spends (ids : IdSource) :
    Spends (3 + 2 * ws.sessions.length) ids (ws.normalized ids).2 := by
  have h := normalizingActive_spends ws.normalizingSpecs ids
  rwa [TreeWorkspace.normalizingSpecs, List.length_map] at h

/-- A pane folded back in draws the identity of a split, and adds no
session. -/
theorem reattachPane_draws (target : PaneId) (tab : TabId) (ids : IdSource) :
    Spends 1 ids (reattachPane ws target tab ids).2 ∧
      (reattachPane ws target tab ids).1.sessions.length = ws.sessions.length := by
  have hsplit : Spends 1 ids ids.split.2 := ⟨1, le_rfl, .split .none⟩
  unfold reattachPane
  cases hown : detachedOwner ws target with
  | none => exact ⟨.refl, rfl⟩
  | some index =>
    cases hs : ws.sessions[index]? with
    | none => exact ⟨by simpa [hs] using hsplit, by simp [hs]⟩
    | some s => exact ⟨by simpa [hs] using hsplit, by simp [hs, TreeWorkspace.setSession]⟩

theorem reattachAll_spends (panes : List PaneId) (ws : TreeWorkspace) (ids : IdSource) :
    Spends (2 * panes.length) ids (reattachAll panes ws ids).2 := by
  induction panes generalizing ws ids with
  | nil => exact .refl
  | cons pane rest ih =>
    have htab : Spends 1 ids ids.tab.2 := ⟨1, le_rfl, .tab .none⟩
    rw [List.length_cons, Nat.mul_add, Nat.add_comm]
    exact (htab.trans (reattachPane_draws ws pane ids.tab.1 ids.tab.2).1).trans (ih _ _)

/-! ### The shape the size is read off -/

theorem reattachAll_length (panes : List PaneId) (ws : TreeWorkspace) (ids : IdSource) :
    (reattachAll panes ws ids).1.sessions.length = ws.sessions.length := by
  induction panes generalizing ws ids with
  | nil => rfl
  | cons pane rest ih =>
    rw [reattachAll, ih]
    exact (reattachPane_draws ws pane ids.tab.1 ids.tab.2).2

theorem restoreActiveTab_length (sessions : List Session) (saved : SessionId × Nat) :
    (restoreActiveTab sessions saved).length = sessions.length := by
  rw [restoreActiveTab]
  split
  · rfl
  · rw [List.length_modify]

theorem restoreActiveTabs_length (activeTabs : List (SessionId × Nat)) (sessions : List Session) :
    (activeTabs.foldl restoreActiveTab sessions).length = sessions.length := by
  induction activeTabs generalizing sessions with
  | nil => rfl
  | cons saved rest ih => rw [List.foldl_cons, ih, restoreActiveTab_length]

theorem droppingVideoPanes_detached :
    ws.droppingVideoPanes.detachedPaneIds.length ≤ ws.detachedPaneIds.length := by
  have hsession : ∀ s : Session, s.droppingVideoPanes.detachedIds.length ≤ s.detachedIds.length := by
    grind [Session.droppingVideoPanes, Session.detachedIds, List.length_map]
  obtain ⟨sessions, active⟩ := ws
  induction sessions with
  | nil => exact le_rfl
  | cons s rest ih =>
    simp only [TreeWorkspace.detachedPaneIds, TreeWorkspace.droppingVideoPanes, List.map_cons,
      List.flatMap_cons, List.length_append] at ih ⊢
    exact Nat.add_le_add (hsession s) ih

/-- The launch restore: two for each detached pane, and then a whole
repair. -/
theorem redocked_spends (ids : IdSource) :
    Spends (3 + 2 * ws.sessions.length + 2 * ws.detachedPaneIds.length) ids (redocked ws ids).2 := by
  have hlength : ws.droppingVideoPanes.sessions.length = ws.sessions.length := by
    simp [TreeWorkspace.droppingVideoPanes]
  have hdetached := droppingVideoPanes_detached ws
  simp only [redocked]
  split
  · exact (normalized_spends _ ids).mono (by omega)
  · have hdocked := reattachAll_spends ws.droppingVideoPanes.detachedPaneIds ws.droppingVideoPanes ids
    refine (hdocked.trans (normalized_spends _ _)).mono ?_
    rw [restoreActiveTabs_length, reattachAll_length]
    omega

/-! ## What a pass leaves -/

theorem normalizingSpecs_specsMatch (s : Session) : s.normalizingSpecs.specsMatch = true := by
  have hretained : ∀ (seen : List PaneId) (detached : List DetachedPane),
      ∀ entry ∈ Session.retainDetached s.allPaneIds s.specs seen detached, entry.pane ∈ s.specs := by
    intro seen detached
    induction detached generalizing seen with
    | nil => simp [Session.retainDetached]
    | cons entry rest ih =>
      grind [Session.retainDetached]
  have hfold : ∀ (leaves : List PaneId) (specs : BTreeMap PaneId PaneSpec) (p : PaneId),
      p ∈ leaves.foldl (fun specs id => specs.insertIfNew id .seeded) specs ↔
        p ∈ leaves ∨ p ∈ specs := by
    intro leaves
    induction leaves with
    | nil => simp
    | cons leaf rest ih =>
      grind
  have hspecs : ∀ p, p ∈ s.normalizingSpecs.specs ↔ p ∈ s.allPaneIds ∨
      (p ∈ s.specs ∧ (p ∈ s.allPaneIds ∨ p ∈ s.normalizingSpecs.detachedIds)) := by
    intro p
    rw [Session.normalizingSpecs, hfold]
    simp [Std.ExtTreeMap.mem_filter, Session.detachedIds]
  have hdetached : ∀ p ∈ s.normalizingSpecs.detachedIds, p ∈ s.specs := by
    intro p hp
    obtain ⟨entry, hentry, rfl⟩ := List.mem_map.mp hp
    exact hretained _ _ entry hentry
  refine s.normalizingSpecs.specsMatch_iff.mpr fun p => ?_
  have hsame : s.normalizingSpecs.allPaneIds = s.allPaneIds := rfl
  rw [hspecs, hsame]
  exact ⟨fun h => h.elim .inl fun h => h.2, fun h => h.elim .inl fun h => .inr ⟨hdetached p h, .inr h⟩⟩

theorem reselected_specsMatch {s : Session} (h : s.specsMatch = true) (ids : IdSource) :
    (s.seeded ids).1.reselected.specsMatch = true := by
  have hpanes : ∀ s : Session, s.reselected.allPaneIds = s.allPaneIds := fun s => by
    simp only [Session.allPaneIds, Session.reselected, List.flatMap_map]
    rfl
  refine (Session.specsMatch_iff _).mpr fun p => ?_
  rw [hpanes]
  rcases seeded_cases s ids with ⟨-, heq⟩ | ⟨hnil, heq⟩
  · rw [heq]
    exact s.specsMatch_iff.mp h p
  · have hold := s.specsMatch_iff.mp h p
    have hnew : (s.seeded ids).1.allPaneIds = [ids.tab.2.pane.1] := by
      rw [heq]
      rfl
    have hnone : s.allPaneIds = [] := by simp [Session.allPaneIds, hnil]
    have hdetached : (s.seeded ids).1.reselected.detachedIds = s.detachedIds := by
      rw [heq]
      rfl
    have hspecs : (s.seeded ids).1.reselected.specs = s.specs.insert ids.tab.2.pane.1 .seeded := by
      rw [heq]
      rfl
    rw [hnone] at hold
    rw [hnew, hdetached, hspecs, Std.ExtTreeMap.mem_insert, Std.LawfulEqCmp.compare_eq_iff_eq, hold,
      List.mem_singleton, eq_comm]
    simp

theorem normalized_invariantHolds (ids : IdSource) : (ws.normalized ids).1.invariantHolds = true := by
  rw [TreeWorkspace.invariantHolds, List.all_eq_true]
  intro s hs
  rw [TreeWorkspace.normalized, TreeWorkspace.normalizingActive] at hs
  split at hs
  · obtain rfl := List.mem_singleton.mp hs
    refine (Session.specsMatch_iff _).mpr fun p => ?_
    simp [Session.singlePane, Session.allPaneIds, Session.detachedIds, Tab.allPaneIds, Tab.new,
      Std.LawfulEqCmp.compare_eq_iff_eq]
    exact eq_comm
  · obtain ⟨old, hold, ids', rfl⟩ := mem_normalizedSessions hs
    obtain ⟨s, -, rfl⟩ := List.mem_map.mp hold
    exact reselected_specsMatch (normalizingSpecs_specsMatch s) ids'

/-- The focus and the zoom of every tab name one of its panes. -/
def TreeWorkspace.Focused (ws : TreeWorkspace) : Prop :=
  ∀ tab ∈ ws.tabs, (∀ p ∈ tab.activePane, p ∈ tab.allPaneIds) ∧ ∀ p ∈ tab.zoomedPane, p ∈ tab.allPaneIds

theorem Tab.reselected_focused (tab : Tab) :
    (∀ p ∈ tab.reselected.activePane, p ∈ tab.reselected.allPaneIds) ∧
      ∀ p ∈ tab.reselected.zoomedPane, p ∈ tab.reselected.allPaneIds := by
  have hpanes : tab.reselected.allPaneIds = tab.allPaneIds := rfl
  rw [hpanes]
  constructor
  · intro p hp
    simp only [Tab.reselected] at hp
    split at hp
    · rename_i hheld
      rw [Option.mem_def.mp hp] at hheld
      simpa using hheld
    · exact SplitNode.firstLeafId_mem hp
  · intro p hp
    simp only [Tab.reselected] at hp
    split at hp
    · rename_i hheld
      rw [Option.mem_def.mp hp] at hheld
      simpa using hheld
    · cases hp

theorem normalizingActive_focused (ids : IdSource) : (ws.normalizingActive ids).1.Focused := by
  intro tab htab
  obtain ⟨s, hs, hmem⟩ := TreeWorkspace.mem_tabs.mp htab
  rw [TreeWorkspace.normalizingActive] at hs
  split at hs
  · obtain rfl := List.mem_singleton.mp hs
    obtain rfl := List.mem_singleton.mp hmem
    simp [Tab.new, SplitNode.firstLeafId, Tab.allPaneIds]
  · obtain ⟨old, -, ids', rfl⟩ := mem_normalizedSessions hs
    obtain ⟨before, -, rfl⟩ := List.mem_map.mp hmem
    exact before.reselected_focused

/-- Every pass, over any workspace: it draws no more identities than the
ceiling its caller minted for, counted as the ceiling is, in a `usize`;
every pass but the repair of the selections leaves specs that match the
panes, and every pass but the repair of the specs leaves selections that
name something there. -/
theorem repaired_settles (ws : TreeWorkspace) (pass : RepairPass) (ids : IdSource) :
    (∃ n, ids.Draws n (repaired ws pass ids).2 ∧
      min n usizeMax ≤ RepairPass.mintedIds ws.sessions.length ws.detachedPaneIds.length) ∧
    (pass ≠ .active → (repaired ws pass ids).1.invariantHolds = true) ∧
    (pass ≠ .specs → (repaired ws pass ids).1.Indexed ∧ (repaired ws pass ids).1.Named ∧
      (repaired ws pass ids).1.Focused) := by
  have hsettled : ∀ ws ids, (TreeWorkspace.normalized ws ids).1.Indexed ∧
      (TreeWorkspace.normalized ws ids).1.Named ∧ (TreeWorkspace.normalized ws ids).1.Focused :=
    fun ws ids => ⟨(normalizingActive_settled _ ids).1, (normalizingActive_settled _ ids).2,
      normalizingActive_focused _ ids⟩
  refine ⟨?_, fun hpass => ?_, fun hpass => ?_⟩
  · have hspends : IdSource.Spends (3 + 2 * ws.sessions.length + 2 * ws.detachedPaneIds.length) ids
        (repaired ws pass ids).2 := by
      cases pass with
      | specs => exact .refl
      | active => exact (normalizingActive_spends ws ids).mono (by omega)
      | normalized => exact (normalized_spends ws ids).mono (by omega)
      | launchRestore => exact redocked_spends ws ids
    obtain ⟨n, hn, hdraws⟩ := hspends
    refine ⟨n, hdraws, ?_⟩
    simp only [RepairPass.mintedIds, usizeMax]
    omega
  · cases pass with
    | specs =>
      rw [TreeWorkspace.invariantHolds, List.all_eq_true]
      intro s hs
      obtain ⟨old, -, rfl⟩ := List.mem_map.mp hs
      exact normalizingSpecs_specsMatch old
    | active => exact absurd rfl hpass
    | normalized => exact normalized_invariantHolds ws ids
    | launchRestore =>
      simp only [repaired, redocked]
      split <;> exact normalized_invariantHolds _ _
  · cases pass with
    | specs => exact absurd rfl hpass
    | active =>
      exact ⟨(normalizingActive_settled ws ids).1, (normalizingActive_settled ws ids).2,
        normalizingActive_focused ws ids⟩
    | normalized => exact hsettled ws ids
    | launchRestore =>
      grind [repaired, redocked]

/-- A session whose index is of no tab, and one whose pane has no spec. -/
def unindexed : TreeWorkspace :=
  ⟨[{ Session.singlePane (uniform 1) "" (uniform 2) (uniform 3) .seeded with activeTabIndex := 5 }],
    some (uniform 1)⟩

def orphaned : TreeWorkspace :=
  ⟨[{ Session.singlePane (uniform 1) "" (uniform 2) (uniform 3) .seeded with specs := ∅ }],
    some (uniform 1)⟩

/-- Each single repair leaves what the other one is for. -/
theorem single_repairs_leave :
    ¬ (repaired unindexed .specs (.always (uniform 0))).1.Indexed ∧
      (repaired orphaned .active (.always (uniform 0))).1.invariantHolds = false := by
  refine ⟨fun h => ?_, ?_⟩
  · have hindex := h _ List.mem_cons_self
    revert hindex
    decide +kernel
  · rfl

end SlopDesk.Tree

/-! # The arrangements a tab is re-tiled to
(`slopdesk-tree/src/tree_ops.rs`, `rebuild`), and that each keeps every
pane.

The grid is the one with arithmetic in it. Its leaves are dealt to the rows
one after the other, so a row's width is how often it was dealt to; the
slices of those widths are then cut in order, and their ends add up to the
whole list.
-/

namespace SlopDesk.Tree

open SlopDesk.Base

variable {leaves : List PaneId} {count : Nat}

inductive TileLayout where
  | evenHorizontal
  | evenVertical
  | mainVertical
  | mainHorizontal
  | tiled
  deriving DecidableEq

/-! ## The arrangements -/

def evenChild (node : SplitNode) : WeightedChild := ⟨.flex F64.one, node⟩

def flatSplit (axis : SplitAxis) (leaves : List PaneId) (ids : IdSource) : SplitNode × IdSource :=
  match leaves with
  | [only] => (.leaf only, ids)
  | _ =>
    let (id, ids) := ids.split
    (.split id axis (leaves.map fun id => evenChild (.leaf id)), ids)

def mainSplit (outer inner : SplitAxis) (leaves : List PaneId) (ids : IdSource) :
    SplitNode × IdSource :=
  match leaves with
  | [] => flatSplit outer [] ids
  | first :: rest =>
    let (companion, ids) := flatSplit inner rest ids
    let (id, ids) := ids.split
    (.split id outer [evenChild (.leaf first), evenChild companion], ids)

/-- A counter stepped up while it falls `short`, this many steps at
most. -/
def growWhile (short : Nat → Bool) : Nat → Nat → Nat
  | 0, n => n
  | steps + 1, n => if short n then growWhile short steps (n + 1) else n

/-- The columns of `tiled`: `while cols * cols < count`. -/
def tiledCols (count : Nat) : Nat := growWhile (fun cols => cols * cols < count) count 1

/-- The rows of `tiled`: `while rows * cols < count`. -/
def tiledRows (count : Nat) : Nat := growWhile (fun rows => rows * tiledCols count < count) count 1

/-- The widths of the rows, one leaf dealt to each in turn. -/
def dealt (rows count : Nat) : List Nat :=
  (List.range count).foldl (fun widths index => widths.modify (index % rows) (· + 1))
    (List.replicate rows 0)

/-- The rows of these widths, cut from the leaves one after the other. -/
def rowNodes (leaves : List PaneId) : List Nat → Nat → IdSource → List SplitNode × IdSource
  | [], _, ids => ([], ids)
  | width :: widths, start, ids =>
    let stop := min (start + width) leaves.length
    let (row, ids) := flatSplit .horizontal (leaves.extract start stop) ids
    let (rows, ids) := rowNodes leaves widths stop ids
    (row :: rows, ids)

def tiled (leaves : List PaneId) (ids : IdSource) : SplitNode × IdSource :=
  let (rows, ids) := rowNodes leaves (dealt (tiledRows leaves.length) leaves.length) 0 ids
  match rows with
  | [only] => (only, ids)
  | _ =>
    let (id, ids) := ids.split
    (.split id .vertical (rows.map evenChild), ids)

def rebuild (layout : TileLayout) (leaves : List PaneId) (ids : IdSource) : SplitNode × IdSource :=
  match layout with
  | .evenHorizontal => flatSplit .horizontal leaves ids
  | .evenVertical => flatSplit .vertical leaves ids
  | .mainVertical => mainSplit .horizontal .vertical leaves ids
  | .mainHorizontal => mainSplit .vertical .horizontal leaves ids
  | .tiled => tiled leaves ids

/-! ## A row -/

/-- Leaves side by side along one axis, or a single one: what `flat_split`
makes of a list that is not empty. -/
structure SplitNode.Row (axis : SplitAxis) (leaves : List PaneId) (node : SplitNode) : Prop where
  panes : node.allPaneIds = leaves
  shaped : Shaped node
  along : node.axis? = none ∨ node.axis? = some axis
  shallow : node.depth ≤ 2

theorem SplitNode.Row.leafCount {axis : SplitAxis} {node : SplitNode}
    (h : node.Row axis leaves) : node.leafCount = leaves.length := by
  rw [leafCount_eq, h.panes]

theorem flatSplit_row (axis : SplitAxis) (ids : IdSource) (h : leaves ≠ []) :
    (flatSplit axis leaves ids).1.Row axis leaves := by
  match leaves, h with
  | [only], _ => exact ⟨rfl, .leaf, .inl rfl, by simp [flatSplit, SplitNode.depth]⟩
  | first :: second :: rest, _ =>
    have hleaf : ∀ child ∈ (first :: second :: rest).map fun id => evenChild (.leaf id),
        ∃ id, child.node = .leaf id := by
      intro child hc
      obtain ⟨id, -, rfl⟩ := List.mem_map.mp hc
      exact ⟨id, rfl⟩
    refine ⟨?_, .split (by simp) (fun child hc => ?_) (fun child hc => ?_), .inr rfl, ?_⟩
    · simp [flatSplit, List.flatMap_map, evenChild]
    · obtain ⟨id, heq⟩ := hleaf child hc
      exact heq ▸ .leaf
    · obtain ⟨id, heq⟩ := hleaf child hc
      simp [heq, SplitNode.axis?]
    · have hdepth : SplitNode.depthOf ((first :: second :: rest).map fun id => evenChild (.leaf id)) ≤ 1 :=
        SplitNode.depthOf_le.mpr fun child hc => by
          obtain ⟨id, heq⟩ := hleaf child hc
          simp [heq, SplitNode.depth]
      simp only [flatSplit, SplitNode.depth]
      omega

/-! ## How many rows, and how wide -/

/-- A counter that is stepped up stops where it no longer falls short, and
fell short everywhere before. -/
theorem growWhile_spec {short : Nat → Bool} {steps n bound : Nat} (hbound : bound ≤ n + steps)
    (hshort : ∀ m, bound ≤ m → short m = false) :
    short (growWhile short steps n) = false ∧ n ≤ growWhile short steps n ∧
      ∀ m, n ≤ m → m < growWhile short steps n → short m = true := by
  induction steps generalizing n with
  | zero => exact ⟨hshort n (by omega), le_rfl, fun m hn hm => absurd hm (by simp [growWhile]; omega)⟩
  | succ steps ih =>
    rw [growWhile]
    split
    · grind
    · grind

theorem tiledCols_pos (count : Nat) : 1 ≤ tiledCols count := by
  have hshort : ∀ m, count ≤ m → decide (m * m < count) = false := fun m hm => by
    have hm' := Nat.le_mul_self m
    simp only [decide_eq_false_iff_not]
    omega
  have hbound : count ≤ 1 + count := by omega
  exact (growWhile_spec hbound hshort).2.1

theorem tiledRows_spec (h : 1 ≤ count) : 1 ≤ tiledRows count ∧ tiledRows count ≤ count := by
  have hcols := tiledCols_pos count
  have hshort : ∀ m, count ≤ m → decide (m * tiledCols count < count) = false := fun m hm => by
    have hm' := Nat.le_mul_of_pos_right m hcols
    simp only [decide_eq_false_iff_not]
    omega
  have hbound : count ≤ 1 + count := by omega
  obtain ⟨-, hpos, hbefore⟩ := growWhile_spec hbound hshort
  refine ⟨hpos, Nat.le_of_not_lt fun hlt => ?_⟩
  have hcount := hbefore count h hlt
  have hcount' := Nat.le_mul_of_pos_right count hcols
  simp only [decide_eq_true_eq] at hcount
  omega

theorem dealt_succ (rows count : Nat) :
    dealt rows (count + 1) = (dealt rows count).modify (count % rows) (· + 1) := by
  simp [dealt, List.range_succ]

theorem dealt_length (rows count : Nat) : (dealt rows count).length = rows := by
  induction count with
  | zero => simp [dealt]
  | succ count ih => rw [dealt_succ, List.length_modify, ih]

/-- The widths of the rows: an even share, and one more for each of the
first few. -/
theorem dealt_getElem? {rows r : Nat} (h : r < rows) :
    (dealt rows count)[r]? = some (count / rows + if r < count % rows then 1 else 0) := by
  induction count with
  | zero => simp [dealt, h]
  | succ count ih =>
    have hcount := Nat.div_add_mod count rows
    have hmod := Nat.mod_lt count (by omega : 0 < rows)
    rw [dealt_succ, List.getElem?_modify, ih]
    generalize count / rows = share at hcount ⊢
    generalize count % rows = extra at hcount hmod ⊢
    by_cases hlast : extra + 1 = rows
    · -- the last row of a round
      have hnext : count + 1 = rows * (share + 1) := by
        rw [Nat.mul_add]
        omega
      rw [hnext, Nat.mul_div_cancel_left _ (by omega), Nat.mul_mod_right]
      by_cases hr : extra = r
      · simp [hr]
      · grind
    · have hnext : count + 1 = rows * share + (extra + 1) := by omega
      rw [hnext, Nat.mul_add_div (by omega), Nat.mul_add_mod, Nat.div_eq_of_lt (by omega),
        Nat.mod_eq_of_lt (by omega)]
      by_cases hr : extra = r
      · simp [hr]
      · grind

theorem foldl_modify_succ (widths : List Nat) {r : Nat} (h : r < widths.length) (start : Nat) :
    (widths.modify r (· + 1)).foldl (· + ·) start = widths.foldl (· + ·) start + 1 := by
  induction widths generalizing r start with
  | nil => simp at h
  | cons width rest ih =>
    have hshift : ∀ (rest : List Nat) (start : Nat),
        rest.foldl (· + ·) (start + 1) = rest.foldl (· + ·) start + 1 := by
      intro rest
      induction rest with
      | nil => exact fun start => rfl
      | cons width rest ih =>
        simp [List.foldl_cons, Nat.add_right_comm, ih]
    cases r with
    | zero => simp [← Nat.add_assoc, hshift]
    | succ r => simpa using ih (by simpa using h) (start + width)

theorem dealt_total {rows : Nat} (h : 1 ≤ rows) : (dealt rows count).foldl (· + ·) 0 = count := by
  induction count with
  | zero =>
    have hzeros : ∀ n, (List.replicate n 0).foldl (· + ·) 0 = 0 := fun n => by
      induction n with
      | zero => rfl
      | succ n ih => simpa [List.replicate_succ] using ih
    exact hzeros rows
  | succ count ih =>
    rw [dealt_succ, foldl_modify_succ _ (by rw [dealt_length]; exact Nat.mod_lt _ (by omega)), ih]

/-! ## The grid -/

theorem le_foldl_add (widths : List Nat) (start : Nat) : start ≤ widths.foldl (· + ·) start := by
  induction widths generalizing start with
  | nil => exact le_rfl
  | cons width rest ih => exact (Nat.le_add_right _ _).trans (ih (start + width))

/-- The rows cut from a list: a slice each, of the width asked for, and
together what follows the start. -/
theorem rowNodes_spec {widths : List Nat} (start : Nat) (ids : IdSource)
    (hwidths : ∀ width ∈ widths, 1 ≤ width) (htotal : widths.foldl (· + ·) start = leaves.length) :
    (∀ node ∈ (rowNodes leaves widths start ids).1, ∃ slice, node.Row .horizontal slice) ∧
      (rowNodes leaves widths start ids).1.map SplitNode.leafCount = widths ∧
      (rowNodes leaves widths start ids).1.flatMap SplitNode.allPaneIds = leaves.drop start := by
  induction widths generalizing start ids with
  | nil => simpa [rowNodes] using htotal.ge
  | cons width widths ih =>
    have hend : start + width ≤ leaves.length := htotal ▸ le_foldl_add widths (start + width)
    have hwidth := hwidths width (by simp)
    have hlength : (leaves.extract start (start + width)).length = width := by
      grind
    have hrow := flatSplit_row .horizontal ids
      (List.ne_nil_of_length_pos (by omega : 0 < (leaves.extract start (start + width)).length))
    obtain ⟨hrows, hcounts, hrest⟩ := ih (start + width)
      (flatSplit .horizontal (leaves.extract start (start + width)) ids).2
      (fun width h => hwidths width (List.mem_cons_of_mem _ h)) htotal
    simp only [rowNodes, Nat.min_eq_left hend]
    refine ⟨List.forall_mem_cons.mpr ⟨⟨_, hrow⟩, hrows⟩, ?_, ?_⟩
    · rw [List.map_cons, hcounts, hrow.leafCount, hlength]
    · rw [List.flatMap_cons, hrow.panes, hrest, List.extract_eq_take_drop, Nat.add_sub_cancel_left,
        ← List.drop_drop, List.take_append_drop]

/-- The rows of a grid: what its column stacks, or the whole of a grid that
is one row. -/
def SplitNode.rows : SplitNode → List SplitNode
  | .split _ .vertical children => children.map WeightedChild.node
  | node => [node]

theorem dealt_even {rows width : Nat} (h : width ∈ dealt rows count) :
    width = count / rows ∨ width = count / rows + 1 := by
  obtain ⟨r, hr⟩ := List.getElem?_of_mem h
  have hlt : r < rows := dealt_length rows count ▸ (List.getElem?_eq_some_iff.mp hr).1
  rw [dealt_getElem? hlt] at hr
  split at hr
  · exact .inr (Option.some.inj hr).symm
  · exact .inl (Option.some.inj hr).symm

theorem tiled_spec (ids : IdSource) (h : 2 ≤ leaves.length) :
    (tiled leaves ids).1.allPaneIds = leaves ∧ Shaped (tiled leaves ids).1 ∧
      (tiled leaves ids).1.depth ≤ 3 ∧
      (tiled leaves ids).1.rows.map SplitNode.leafCount =
        dealt (tiledRows leaves.length) leaves.length := by
  obtain ⟨hrows, hcount⟩ := tiledRows_spec (by omega : 1 ≤ leaves.length)
  have hwidths : ∀ width ∈ dealt (tiledRows leaves.length) leaves.length, 1 ≤ width := by
    intro width hw
    have hshare : 1 ≤ leaves.length / tiledRows leaves.length := Nat.div_pos hcount (by omega)
    rcases dealt_even hw with rfl | rfl <;> omega
  obtain ⟨hnodes, hcounts, hpanes⟩ := rowNodes_spec 0 ids hwidths (dealt_total hrows)
  have hdealt := dealt_length (tiledRows leaves.length) leaves.length
  unfold tiled
  generalize rowNodes leaves (dealt (tiledRows leaves.length) leaves.length) 0 ids = made at *
  obtain ⟨nodes, ids⟩ := made
  match nodes with
  | [] =>
    grind
  | [only] =>
    obtain ⟨slice, hrow⟩ := hnodes only (by simp)
    have hself : only.rows = [only] := by
      cases only with
      | leaf => rfl
      | split id axis children =>
        obtain rfl : axis = .horizontal := by simpa [SplitNode.axis?] using hrow.along
        rfl
    refine ⟨by simpa using hpanes, hrow.shaped, hrow.shallow.trans (by omega), ?_⟩
    simpa only [hself] using hcounts
  | first :: second :: rest =>
    have hchild : ∀ child ∈ (first :: second :: rest).map evenChild,
        ∃ slice, child.node.Row .horizontal slice := by
      intro child hc
      obtain ⟨node, hn, rfl⟩ := List.mem_map.mp hc
      exact hnodes node hn
    refine ⟨?_, .split (by simp) (fun child hc => ?_) (fun child hc => ?_), ?_, ?_⟩
    · rw [SplitNode.allPaneIds_split, List.flatMap_map]
      exact hpanes
    · obtain ⟨slice, hrow⟩ := hchild child hc
      exact hrow.shaped
    · obtain ⟨slice, hrow⟩ := hchild child hc
      rcases hrow.along with heq | heq <;> simp [heq]
    · have hdepth : SplitNode.depthOf ((first :: second :: rest).map evenChild) ≤ 2 :=
        SplitNode.depthOf_le.mpr fun child hc => by
          obtain ⟨slice, hrow⟩ := hchild child hc
          exact hrow.shallow
      simp only [SplitNode.depth]
      omega
    · rw [SplitNode.rows, List.map_map, List.map_map]
      exact hcounts

/-! ## Every arrangement -/

theorem mainSplit_spec {outer inner : SplitAxis} (ids : IdSource)
    (h : 2 ≤ leaves.length) (hcross : inner ≠ outer) :
    (mainSplit outer inner leaves ids).1.allPaneIds = leaves ∧
      Shaped (mainSplit outer inner leaves ids).1 ∧ (mainSplit outer inner leaves ids).1.depth ≤ 3 := by
  match leaves, h with
  | first :: second :: rest, _ =>
    have hrow := flatSplit_row inner ids (List.cons_ne_nil second rest)
    simp only [mainSplit]
    refine ⟨by simp [evenChild, hrow.panes], .split (by simp) (fun child hc => ?_) (fun child hc => ?_), ?_⟩
    · simp only [List.mem_cons, List.not_mem_nil, or_false] at hc
      rcases hc with rfl | rfl
      · exact .leaf
      · exact hrow.shaped
    · simp only [List.mem_cons, List.not_mem_nil, or_false] at hc
      rcases hc with rfl | rfl
      · simp [evenChild, SplitNode.axis?]
      · rcases hrow.along with heq | heq <;> simp [evenChild, heq, hcross]
    · have hshallow := hrow.shallow
      simp only [SplitNode.depth, SplitNode.depthOf, evenChild]
      omega

/-- Every arrangement of two panes or more keeps each of them, in order, in
a tree that is shaped and three deep at most; and the rows of the grid are
even to within one pane. -/
theorem rebuild_keeps (layout : TileLayout) (leaves : List PaneId) (ids : IdSource)
    (h : 2 ≤ leaves.length) :
    (rebuild layout leaves ids).1.allPaneIds = leaves ∧ Shaped (rebuild layout leaves ids).1 ∧
      (rebuild layout leaves ids).1.depth ≤ 3 ∧
      (layout = .tiled → ∀ a ∈ (rebuild layout leaves ids).1.rows,
        ∀ b ∈ (rebuild layout leaves ids).1.rows, a.leafCount ≤ b.leafCount + 1) := by
  have hflat : ∀ axis, (flatSplit axis leaves ids).1.allPaneIds = leaves ∧
      Shaped (flatSplit axis leaves ids).1 ∧ (flatSplit axis leaves ids).1.depth ≤ 3 := by
    intro axis
    have hrow := flatSplit_row axis ids
      (List.ne_nil_of_length_pos (by omega : 0 < leaves.length))
    exact ⟨hrow.panes, hrow.shaped, hrow.shallow.trans (by omega)⟩
  cases layout with
  | evenHorizontal => exact ⟨(hflat _).1, (hflat _).2.1, (hflat _).2.2, by simp⟩
  | evenVertical => exact ⟨(hflat _).1, (hflat _).2.1, (hflat _).2.2, by simp⟩
  | mainVertical =>
    obtain ⟨hpanes, hshaped, hdepth⟩ := mainSplit_spec ids h
      (by decide : SplitAxis.vertical ≠ SplitAxis.horizontal)
    exact ⟨hpanes, hshaped, hdepth, by simp⟩
  | mainHorizontal =>
    obtain ⟨hpanes, hshaped, hdepth⟩ := mainSplit_spec ids h
      (by decide : SplitAxis.horizontal ≠ SplitAxis.vertical)
    exact ⟨hpanes, hshaped, hdepth, by simp⟩
  | tiled =>
    obtain ⟨hpanes, hshaped, hdepth, hcounts⟩ := tiled_spec ids h
    refine ⟨hpanes, hshaped, hdepth, fun _ a ha b hb => ?_⟩
    have hshare : ∀ row ∈ (tiled leaves ids).1.rows, row.leafCount ∈
        dealt (tiledRows leaves.length) leaves.length := fun row hrow =>
      hcounts ▸ List.mem_map_of_mem hrow
    rcases dealt_even (hshare a ha) with ha | ha <;> rcases dealt_even (hshare b hb) with hb | hb <;> omega

/-- Seven panes. -/
def seven : List PaneId := (List.range 7).map fun n => uniform (.ofNat n)

/-- Seven panes tile three, two and two. -/
theorem rebuild_keeps_seven :
    (rebuild .tiled seven (.always (uniform 0))).1.rows.map SplitNode.leafCount = [3, 2, 2] ∧
      (rebuild .tiled seven (.always (uniform 0))).1.allPaneIds = seven :=
  ⟨by decide +kernel, (rebuild_keeps .tiled seven (.always (uniform 0)) (by decide)).1⟩

end SlopDesk.Tree
