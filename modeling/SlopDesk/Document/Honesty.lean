/-
SlopDesk.Document.Honesty — whether an arrangement that is answered
`applied` is the one that was asked for.

A move, a swap, a dock and a divider go through operations that decline by
leaving the tree as it was, and not every decline is a refusal. For each of
the four: what is asked of the topology it leaves, and what of the topology
before it makes that so, which is that the operation goes through or that
what it asks is so already.

  §1 Moves    — a pane beside another.
  §2 Docks    — a pane at an edge of a tab.
  §3 Swaps    — two panes in each other's place.
  §4 Dividers — a weight on the leading side.
  §5 Requests — the four together.
-/
import SlopDesk.Document.TopologyRuns
import SlopDesk.Tree.Positions

namespace SlopDesk.Document

open SlopDesk.Base
open SlopDesk.Wire (WireError RawUuid)
open SlopDesk.Tree
open WorkspaceTopology

variable {t t' : WorkspaceTopology} {r : Request} {args : List UInt8} {ids : IdSource}
  {ws : TreeWorkspace} {s : Session} {tab : Tab} {i j : Nat}
variable {pane : PaneId}

/-- A tree there is, within the depth cap. -/
def Fits (root : Option SplitNode) : Prop := ∃ node, root = some node ∧ node.depth ≤ maxDepth

instance : DecidablePred Fits
  | none => .isFalse fun ⟨_, h, _⟩ => (by cases h)
  | some node => decidable_of_iff (node.depth ≤ maxDepth)
      ⟨fun h => ⟨node, rfl, h⟩, fun ⟨_, h, hdepth⟩ => Option.some.inj h ▸ hdepth⟩

theorem mem_setTab {tab' : Tab} (hs : ws.sessions[i]? = some s) (ht : s.tabs[j]? = some tab) :
    tab' ∈ (ws.setSession i (s.setTab j tab')).tabs := by
  obtain ⟨hi, -⟩ := List.getElem?_eq_some_iff.mp hs
  obtain ⟨hj, -⟩ := List.getElem?_eq_some_iff.mp ht
  exact TreeWorkspace.mem_tabs.mpr ⟨s.setTab j tab', List.mem_set hi _, List.mem_set hj _⟩

theorem editingTab_eq {edit : Tab → Option Tab} (hs : ws.sessions[i]? = some s)
    (ht : s.tabs[j]? = some tab) : editingTab ws i j edit =
      ((edit tab).map fun tab' => ws.setSession i (s.setTab j tab')).getD ws := by
  simp only [editingTab, hs, ht, Option.bind_eq_bind, Option.bind_some]
  cases edit tab <;> rfl

/-! ## §1 Moves -/

/-- The moved pane stands beside its target. -/
def MoveAsked (moved : MoveArgs) (ws : TreeWorkspace) : Prop :=
  ∃ tab ∈ ws.tabs, tab.root.Beside moved.source moved.target moved.axis moved.before

/-- The tree the tab of the target would have after a move within the
session. -/
def movedTree (ws : TreeWorkspace) (moved : MoveArgs) (ids : IdSource) : Option SplitNode := do
  let (si, sj) ← locate ws moved.source
  let (ti, tj) ← locate ws moved.target
  if si ≠ ti then none
  else do
    let s ← ws.sessions[si]?
    let tab ← s.tabs[tj]?
    let root ← if sj = tj then tab.root.removing moved.source else some tab.root
    root.insertingBeside moved.source moved.target moved.axis moved.before ids.split.1

theorem landed_some {destination : Tab} {k : Nat} (grown : SplitNode)
    (ht : s.tabs[j]? = some tab) (hd : s.tabs[k]? = some destination) (hne : j ≠ k) :
    ∃ s' landed, s.landed pane j destination.id grown = some s' ∧ landed ∈ s'.tabs ∧
      landed.id = destination.id ∧ landed.root = grown := by
  have hkept : destination ∈ (pruneLeafFromTab s pane j).tabs := by
    rcases pruneLeafFromTab_cases pane ht with ⟨root, -, heq⟩ | ⟨-, heq⟩
    · rw [heq, Session.setTab]
      exact List.mem_of_getElem? (by rw [List.getElem?_set_ne hne, hd])
    · rw [heq]
      exact List.mem_eraseIdx_iff_getElem?.mpr ⟨k, Ne.symm hne, hd⟩
  obtain ⟨index, hindex⟩ := Position.exists_findIdx? (p := fun tab : Tab => tab.id = destination.id)
    hkept (by simp)
  obtain ⟨found, hfound, hid⟩ := tabIndexOf_spec hindex
  obtain ⟨hlt, -⟩ := List.getElem?_eq_some_iff.mp hfound
  let landed : Tab := { found with root := grown, activePane := some pane, zoomedPane := none }
  refine ⟨{ (pruneLeafFromTab s pane j).setTab index landed with activeTabIndex := index }, landed,
    ?_, List.mem_set hlt _, hid, rfl⟩
  rw [Session.landed, Session.tabIndexOf, hindex]
  simp [hfound, landed]

/-- A tab re-arranged into a tree that fits has that structure, whether it
is re-arranged or has it already. -/
theorem rearranged_structural (tab : Tab) (pane : PaneId) {relocated : SplitNode}
    (h : relocated.depth ≤ maxDepth) :
    (tab.rearranged pane relocated = none ∧ relocated.isStructurallyEqual tab.root = true) ∨
      ∃ tab', tab.rearranged pane relocated = some tab' ∧ tab'.id = tab.id ∧ tab'.root = relocated := by
  unfold Tab.rearranged
  split
  · grind
  · exact .inr ⟨_, rfl, rfl, rfl⟩

theorem rearranged_deep {relocated : SplitNode} (h : ¬ relocated.depth ≤ maxDepth) :
    tab.rearranged pane relocated = none := by
  unfold Tab.rearranged
  rw [if_pos (by simp; omega)]

theorem moveLeafAcrossTabs_asked (ws : TreeWorkspace) (ids : IdSource) {moved : MoveArgs}
    (hne : moved.source ≠ moved.target) :
    (Fits (movedTree ws moved ids) →
      MoveAsked moved (moveLeafAcrossTabs ws moved.source moved.target moved.axis moved.before ids)) ∧
    (¬ Fits (movedTree ws moved ids) →
      moveLeafAcrossTabs ws moved.source moved.target moved.axis moved.before ids = ws) := by
  unfold moveLeafAcrossTabs
  rw [if_neg hne]
  cases hstart : locate ws moved.source with
  | none => simp [movedTree, Fits, hstart]
  | some start =>
    obtain ⟨si, sj⟩ := start
    cases hgoal : locate ws moved.target with
    | none => simp [movedTree, Fits, hstart, hgoal]
    | some goal =>
      obtain ⟨ti, tj⟩ := goal
      simp only
      by_cases hsession : si = ti
      case neg => simp [movedTree, Fits, hstart, hgoal, hsession]
      subst hsession
      obtain ⟨s, source, hs, hsource, -⟩ := locate_spec hstart
      obtain ⟨s', target, hs', htarget, hmem⟩ := locate_spec hgoal
      obtain rfl := Option.some.inj (hs.symm.trans hs')
      rw [if_neg (by simp)]
      by_cases hsame : sj = tj
      · subst hsame
        have htree : movedTree ws moved ids = (source.root.removing moved.source).bind fun root =>
            root.insertingBeside moved.source moved.target moved.axis moved.before ids.split.1 := by
          simp [movedTree, hstart, hgoal, hs, hsource]
        have hresult : moveLeaf ws moved.source moved.target moved.axis moved.before ids =
            ((source.movedBeside moved.source moved.target moved.axis moved.before ids.split.1).map
              fun tab => ws.setSession si (s.setTab sj tab)).getD ws := by
          simp only [moveLeaf, hne, hstart, hgoal, if_false, ne_eq, not_true_eq_false]
          exact editingTab_eq hs hsource
        rw [if_pos rfl, hresult, htree]
        constructor
        · rintro ⟨relocated, hrelocated, hdepth⟩
          obtain ⟨pruned, hpruned, hinserted⟩ := Option.bind_eq_some_iff.mp hrelocated
          obtain ⟨hin, hbeside⟩ := insertingBeside_some hinserted
          have hasked : relocated.Beside moved.source moved.target moved.axis moved.before :=
            hbeside ▸ SplitNode.insertBesideImpl_beside hin
          have hmoved : source.movedBeside moved.source moved.target moved.axis moved.before ids.split.1 =
              source.rearranged moved.source relocated := by
            simp [Tab.movedBeside, hpruned, hinserted]
          rw [hmoved]
          rcases rearranged_structural source moved.source hdepth with
            ⟨hnone, hsame⟩ | ⟨tab', htab', -, hroot⟩
          · rw [hnone]
            exact ⟨source, TreeWorkspace.tabs_subset hs (List.mem_of_getElem? hsource),
              hasked.structural hsame⟩
          · rw [htab']
            exact ⟨tab', mem_setTab hs hsource, hroot ▸ hasked⟩
        · intro hfits
          have hnone : source.movedBeside moved.source moved.target moved.axis moved.before
              ids.split.1 = none := by
            unfold Tab.movedBeside
            cases hpruned : source.root.removing moved.source with
            | none => rfl
            | some pruned =>
              cases hinserted : pruned.insertingBeside moved.source moved.target moved.axis
                  moved.before ids.split.1 with
              | none => simp [hinserted]
              | some relocated =>
                have hdeep : ¬ relocated.depth ≤ maxDepth := fun hdepth =>
                  hfits ⟨relocated, by rw [hpruned, Option.bind_some, hinserted], hdepth⟩
                simp [hinserted, rearranged_deep hdeep]
          rw [hnone]
          rfl
      · rw [if_neg hsame]
        have htree : movedTree ws moved ids = target.root.insertingBeside moved.source moved.target
            moved.axis moved.before ids.split.1 := by
          simp [movedTree, hstart, hgoal, hs, htarget, hsame]
        rw [htree]
        unfold moveLeafAcrossTabs?
        simp only [hs, htarget, Option.bind_eq_bind, Option.bind_some]
        constructor
        · rintro ⟨grown, hgrown, hdepth⟩
          obtain ⟨hin, hbeside⟩ := insertingBeside_some hgrown
          obtain ⟨s', landed, hlanded, hmem', -, hroot⟩ := landed_some grown hsource htarget hsame
          rw [hgrown, Option.bind_some, if_neg (by omega), hlanded]
          refine ⟨landed, TreeWorkspace.mem_tabs.mpr ⟨s', ?_, hmem'⟩, ?_⟩
          · obtain ⟨hi, -⟩ := List.getElem?_eq_some_iff.mp hs
            exact List.mem_set hi _
          · rw [hroot, hbeside]
            exact SplitNode.insertBesideImpl_beside hin
        · intro hfits
          cases hgrown : target.root.insertingBeside moved.source moved.target moved.axis moved.before
              ids.split.1 with
          | none => rfl
          | some grown =>
            have hdeep : ¬ grown.depth ≤ maxDepth := fun hdepth => hfits ⟨grown, hgrown, hdepth⟩
            rw [Option.bind_some, if_pos (by omega)]
            rfl

/-! ## §2 Docks -/

/-- The docked pane takes up that edge of the tab. -/
def DockAsked (dock : DockArgs) (ws : TreeWorkspace) : Prop :=
  ∃ tab ∈ ws.tabs, tab.id = dock.tab ∧
    tab.root.AtEdge dock.source dock.edge.axis dock.edge.insertsBefore

/-- The tree the destination would have after a dock within the session: of
a pane of its own, when it has another. -/
def dockedTree (ws : TreeWorkspace) (dock : DockArgs) (ids : IdSource) : Option SplitNode := do
  let (si, sj) ← locate ws dock.source
  let s ← ws.sessions[si]?
  let k ← s.tabIndexOf dock.tab
  let tab ← s.tabs[k]?
  let root ←
    if sj ≠ k then some tab.root
    else if tab.root.leafCount ≤ 1 then none
    else tab.root.removing dock.source
  pure (root.insertingAtRoot dock.source dock.edge.axis dock.edge.insertsBefore ids.split.1)

theorem moveLeafToTabRootEdge_asked (ws : TreeWorkspace) (dock : DockArgs) (ids : IdSource) :
    (Fits (dockedTree ws dock ids) →
      DockAsked dock (moveLeafToTabRootEdge ws dock.source dock.tab dock.edge ids)) ∧
    (¬ Fits (dockedTree ws dock ids) →
      moveLeafToTabRootEdge ws dock.source dock.tab dock.edge ids = ws) := by
  unfold moveLeafToTabRootEdge
  cases hstart : locate ws dock.source with
  | none => simp [dockedTree, Fits, hstart]
  | some start =>
    obtain ⟨si, sj⟩ := start
    obtain ⟨s, source, hs, hsource, -⟩ := locate_spec hstart
    simp only [hs, Option.bind_some]
    cases htarget : s.tabIndexOf dock.tab with
    | none => simp [dockedTree, Fits, hstart, hs, htarget]
    | some k =>
      obtain ⟨target, hk, hid⟩ := tabIndexOf_spec htarget
      simp only
      by_cases hsame : sj = k
      · subst hsame
        obtain rfl := Option.some.inj (hsource.symm.trans hk)
        have htree : dockedTree ws dock ids =
            (if source.root.leafCount ≤ 1 then none else source.root.removing dock.source).map
              fun root => root.insertingAtRoot dock.source dock.edge.axis dock.edge.insertsBefore
                ids.split.1 := by
          simp only [dockedTree, hstart, hs, htarget, hsource, Option.bind_eq_bind, Option.bind_some,
            ne_eq, not_true_eq_false, if_false]
          split
          · rfl
          · cases source.root.removing dock.source <;> rfl
        have hresult : moveLeafToRootEdge ws dock.source dock.edge ids =
            ((source.movedToEdge dock.source dock.edge ids.split.1).map
              fun tab => ws.setSession si (s.setTab sj tab)).getD ws := by
          simp only [moveLeafToRootEdge, hstart]
          exact editingTab_eq hs hsource
        rw [if_pos rfl, hresult, htree]
        unfold Tab.movedToEdge
        by_cases hlone : source.root.leafCount ≤ 1
        · rw [if_pos hlone, if_pos hlone]
          exact ⟨fun ⟨root, hroot, _⟩ => (by cases hroot), fun _ => rfl⟩
        · rw [if_neg hlone, if_neg hlone]
          cases hpruned : source.root.removing dock.source with
          | none => exact ⟨fun ⟨root, hroot, _⟩ => (by cases hroot), fun _ => rfl⟩
          | some pruned =>
            have hedge := SplitNode.insertingAtRoot_atEdge pruned dock.source dock.edge.axis
              dock.edge.insertsBefore ids.split.1
            simp only [Option.map_some, Option.bind_eq_bind, Option.bind_some]
            generalize pruned.insertingAtRoot dock.source dock.edge.axis dock.edge.insertsBefore
              ids.split.1 = relocated at hedge ⊢
            constructor
            · rintro ⟨root, hroot, hdepth⟩
              obtain rfl := Option.some.inj hroot
              rcases rearranged_structural source dock.source hdepth with
                ⟨hnone, hstructure⟩ | ⟨tab', htab', hid', hroot'⟩
              · rw [hnone]
                exact ⟨source, TreeWorkspace.tabs_subset hs (List.mem_of_getElem? hsource), hid,
                  hedge.structural hstructure⟩
              · rw [htab']
                exact ⟨tab', mem_setTab hs hsource, hid'.trans hid, hroot' ▸ hedge⟩
            · intro hfits
              rw [rearranged_deep fun hdepth => hfits ⟨relocated, rfl, hdepth⟩]
              rfl
      · rw [if_neg hsame]
        have htree : dockedTree ws dock ids = some (target.root.insertingAtRoot dock.source
            dock.edge.axis dock.edge.insertsBefore ids.split.1) := by
          simp [dockedTree, hstart, hs, htarget, hk, hsame]
        have hedge := SplitNode.insertingAtRoot_atEdge target.root dock.source dock.edge.axis
          dock.edge.insertsBefore ids.split.1
        rw [htree]
        unfold moveLeafToTabRootEdge?
        simp only [hs, hk, Option.bind_eq_bind, Option.bind_some]
        generalize target.root.insertingAtRoot dock.source dock.edge.axis dock.edge.insertsBefore
          ids.split.1 = grown at hedge ⊢
        constructor
        · rintro ⟨root, hroot, hdepth⟩
          obtain rfl := Option.some.inj hroot
          obtain ⟨s', landed, hlanded, hmem', hid', hroot'⟩ := landed_some grown hsource hk hsame
          rw [if_neg (by omega), hlanded]
          refine ⟨landed, TreeWorkspace.mem_tabs.mpr ⟨s', ?_, hmem'⟩, hid'.trans hid, hroot' ▸ hedge⟩
          obtain ⟨hi, -⟩ := List.getElem?_eq_some_iff.mp hs
          exact List.mem_set hi _
        · intro hfits
          rw [if_pos (by
            have hdeep : ¬ grown.depth ≤ maxDepth := fun hdepth => hfits ⟨grown, rfl, hdepth⟩
            omega)]
          rfl

/-! ## §3 Swaps -/

/-- Where a pane is: its session, its tab, and the way down to it. -/
def position (ws : TreeWorkspace) (pane : PaneId) : Option (Nat × Nat × List Nat) := do
  let (i, j) ← locate ws pane
  let s ← ws.sessions[i]?
  let tab ← s.tabs[j]?
  let path ← tab.root.pathTo pane
  pure (i, j, path)

/-- Each of the two panes is where the other one was. -/
def SwapAsked (a b : PaneId) (ws ws' : TreeWorkspace) : Prop :=
  position ws' a = position ws b ∧ position ws' b = position ws a

theorem position_eq (hloc : locate ws pane = some (i, j))
    (hs : ws.sessions[i]? = some s) (ht : s.tabs[j]? = some tab) :
    position ws pane = (tab.root.pathTo pane).map fun path => (i, j, path) := by
  simp only [position, hloc, hs, ht, Option.bind_eq_bind, Option.bind_some]
  cases tab.root.pathTo pane <;> rfl

/-- A pane is located where it was when its tab changes and still has
it. -/
theorem locate_setTab {tab' : Tab} (hloc : locate ws pane = some (i, j))
    (hs : ws.sessions[i]? = some s) (hmem : pane ∈ tab'.allPaneIds) :
    locate (ws.setSession i (s.setTab j tab')) pane = some (i, j) := by
  obtain ⟨pre, x, post, hsessions, rfl, hx, hpre⟩ := Position.of_findMap hloc
  obtain rfl : x = s := by simpa [hsessions] using hs
  obtain ⟨before, y, after, htabs, rfl, -, hbefore⟩ := Position.of_findIdx? hx
  have hset : (ws.setSession pre.length (x.setTab before.length tab')).sessions =
      pre ++ x.setTab before.length tab' :: post := by
    simp [TreeWorkspace.setSession, hsessions]
  have htabs' : (x.setTab before.length tab').tabs = before ++ tab' :: after := by
    simp [Session.setTab, htabs]
  have hindex : (x.setTab before.length tab').tabIndexContaining pane = some before.length := by
    rw [Session.tabIndexContaining, htabs']
    exact Position.findIdx?_cut hbefore (SplitNode.contains_iff.mpr hmem)
  rw [locate, hset]
  exact Position.findMap_cut hpre hindex

theorem locate_of_contains (h : ws.contains pane = true) :
    ∃ i j, locate ws pane = some (i, j) := by
  cases hloc : locate ws pane with
  | some at_ => exact ⟨at_.1, at_.2, rfl⟩
  | none =>
    obtain ⟨s, hs, hcontains⟩ := List.any_eq_true.mp h
    obtain ⟨tab, htab, hmem⟩ := List.any_eq_true.mp hcontains
    have hnone := Position.findMap_eq_none.mp hloc s hs
    exact absurd hmem (by simpa using List.findIdx?_eq_none_iff.mp hnone tab htab)

theorem swapPanes_asked {a b : PaneId} (hne : a ≠ b) (ha : ws.contains a = true)
    (hb : ws.contains b = true) : SwapAsked a b ws (Tree.swapPanes ws a b) ↔ locate ws a = locate ws b := by
  obtain ⟨i, j, hloca⟩ := locate_of_contains ha
  obtain ⟨k, l, hlocb⟩ := locate_of_contains hb
  obtain ⟨s, tab, hs, ht, hmema⟩ := locate_spec hloca
  obtain ⟨s', tab', hs', ht', hmemb⟩ := locate_spec hlocb
  obtain ⟨patha, hpatha⟩ := SplitNode.pathTo_some hmema
  obtain ⟨pathb, hpathb⟩ := SplitNode.pathTo_some hmemb
  have hposa := position_eq hloca hs ht
  have hposb := position_eq hlocb hs' ht'
  constructor
  · rintro ⟨hasked, -⟩
    by_contra hapart
    rw [Tree.swapPanes, if_neg hne, hloca, hlocb] at hasked
    simp only at hasked
    rw [if_pos (by grind),
      hposa, hposb, hpatha, hpathb] at hasked
    simp only [Option.map_some, Option.some.injEq, Prod.mk.injEq] at hasked
    exact hapart (by rw [hloca, hlocb, hasked.1, hasked.2.1])
  · intro hsame
    rw [hloca, hlocb] at hsame
    obtain ⟨rfl, rfl⟩ := Prod.mk.inj (Option.some.inj hsame)
    obtain rfl := Option.some.inj (hs.symm.trans hs')
    obtain rfl := Option.some.inj (ht.symm.trans ht')
    let swapped : Tab := { tab with root := tab.root.swapping a b }
    have hroot : swapped.root = tab.root.mapLeaves (SplitNode.exchanging a b) :=
      if_neg (by simp [hne, SplitNode.contains_iff.mpr hmema, SplitNode.contains_iff.mpr hmemb])
    have hresult : Tree.swapPanes ws a b = ws.setSession i (s.setTab j swapped) := by
      rw [Tree.swapPanes, if_neg hne, hloca, hlocb]
      simp only [ne_eq, not_true_eq_false, if_false]
      rw [editingTab_eq hs ht]
      rfl
    have hinvolutive : Function.Involutive (SplitNode.exchanging a b) :=
      SplitNode.exchanging_exchanging a b
    obtain ⟨hi, -⟩ := List.getElem?_eq_some_iff.mp hs
    obtain ⟨hj, -⟩ := List.getElem?_eq_some_iff.mp ht
    have hget : (ws.setSession i (s.setTab j swapped)).sessions[i]? = some (s.setTab j swapped) := by
      simp [TreeWorkspace.setSession, hi]
    have hgetTab : (s.setTab j swapped).tabs[j]? = some swapped := by simp [Session.setTab, hj]
    have hplace : ∀ p q, locate ws p = some (i, j) → p ∈ swapped.allPaneIds →
        SplitNode.exchanging a b p = q → position (Tree.swapPanes ws a b) p =
          (tab.root.pathTo q).map fun path => (i, j, path) := fun p q hloc hmem hq => by
      rw [hresult, position_eq (locate_setTab hloc hs hmem) hget hgetTab, hroot,
        SplitNode.pathTo_mapLeaves hinvolutive, hq]
    have hmem : ∀ p, SplitNode.exchanging a b p ∈ tab.allPaneIds → p ∈ swapped.allPaneIds :=
      fun p hp => by
        rw [Tab.allPaneIds, hroot, SplitNode.mapLeaves_allPaneIds]
        exact List.mem_map.mpr ⟨_, hp, hinvolutive p⟩
    have hab : SplitNode.exchanging a b a = b := if_pos rfl
    have hba : SplitNode.exchanging a b b = a := by simp [SplitNode.exchanging, hne.symm]
    exact ⟨(hplace a b hloca (hmem a (by rw [hab]; exact hmemb)) hab).trans hposb.symm,
      (hplace b a hlocb (hmem b (by rw [hba]; exact hmema)) hba).trans hposa.symm⟩

/-! ## §4 Dividers -/

/-- A divider of that name has the weight on its leading side. -/
def DividerAsked (split : SplitNodeId) (index : Nat) (weight : F64) (ws : TreeWorkspace) : Prop :=
  ∃ tab ∈ ws.tabs, tab.root.Divides split index weight

/-- The divider takes the weight in the tab that is shown, or has it
already in another. -/
def DividerTakes (split : SplitNodeId) (index : Nat) (weight : F64) (ws : TreeWorkspace) : Prop :=
  ∃ i j s tab, ws.sessions[i]? = some s ∧ s.tabs[j]? = some tab ∧
    if activeTabIndex ws = some (i, j) then tab.root.Takes split index weight
    else tab.root.Divides split index weight

theorem mem_tabs_iff :
    tab ∈ ws.tabs ↔ ∃ (i j : Nat) (s : Session), ws.sessions[i]? = some s ∧ s.tabs[j]? = some tab := by
  rw [TreeWorkspace.mem_tabs]
  constructor
  · rintro ⟨s, hs, htab⟩
    obtain ⟨i, hi⟩ := List.getElem?_of_mem hs
    obtain ⟨j, hj⟩ := List.getElem?_of_mem htab
    exact ⟨i, j, s, hi, hj⟩
  · grind

theorem getElem?_setTab {k l : Nat} {x y : Tab} (hs : ws.sessions[i]? = some s)
    (ht : s.tabs[j]? = some tab) :
    (∃ s', (ws.setSession i (s.setTab j x)).sessions[k]? = some s' ∧ s'.tabs[l]? = some y) ↔
      if (k, l) = (i, j) then y = x else ∃ s', ws.sessions[k]? = some s' ∧ s'.tabs[l]? = some y := by
  obtain ⟨hi, hget⟩ := List.getElem?_eq_some_iff.mp hs
  obtain ⟨hj, -⟩ := List.getElem?_eq_some_iff.mp ht
  by_cases hk : k = i
  · subst hk
    by_cases hl : l = j
    · subst hl
      simp [TreeWorkspace.setSession, Session.setTab, hi, hj, eq_comm]
    · simp [TreeWorkspace.setSession, Session.setTab, hi, hl, Ne.symm hl, hget]
  · simp [TreeWorkspace.setSession, hk, Ne.symm hk]

theorem setDividerWeight_asked (split : SplitNodeId) (index : Nat) (weight : F64) :
    DividerAsked split index weight (Tree.setDividerWeight ws split index weight) ↔
      DividerTakes split index weight ws := by
  unfold Tree.setDividerWeight DividerTakes
  cases hactive : activeTabIndex ws with
  | none =>
    simp only [DividerAsked, mem_tabs_iff, reduceCtorEq, if_false]
    exact ⟨fun ⟨tab, ⟨i, j, s, hs, ht⟩, h⟩ => ⟨i, j, s, tab, hs, ht, h⟩,
      fun ⟨i, j, s, tab, hs, ht, h⟩ => ⟨tab, ⟨i, j, s, hs, ht⟩, h⟩⟩
  | some at_ =>
    obtain ⟨si, ti⟩ := at_
    obtain ⟨s, tab, hs, ht⟩ : ∃ s tab, ws.sessions[si]? = some s ∧ s.tabs[ti]? = some tab := by
      obtain ⟨k, -, hrest⟩ := Option.bind_eq_some_iff.mp hactive
      obtain ⟨s, hs, hrest⟩ := Option.bind_eq_some_iff.mp hrest
      split at hrest
      · rename_i hlt
        obtain ⟨rfl, rfl⟩ := Prod.mk.inj (Option.some.inj hrest)
        exact ⟨s, _, hs, List.getElem?_eq_getElem hlt⟩
      · cases hrest
    simp only
    rw [editingTab_eq hs ht]
    simp only [Option.map_some, Option.getD_some, DividerAsked, mem_tabs_iff, Option.some.injEq]
    constructor
    · rintro ⟨y, ⟨k, l, s', hs', hy⟩, hdivides⟩
      have hplace := (getElem?_setTab hs ht).mp ⟨s', hs', hy⟩
      split at hplace
      · rename_i hkl
        obtain ⟨rfl, rfl⟩ := Prod.mk.inj hkl
        refine ⟨k, l, s, tab, hs, ht, ?_⟩
        rw [if_pos rfl]
        rw [hplace] at hdivides
        exact (SplitNode.divides_settingDividerWeight ..).mp hdivides
      · rename_i hkl
        obtain ⟨s'', hs'', hy'⟩ := hplace
        refine ⟨k, l, s'', y, hs'', hy', ?_⟩
        rw [if_neg (Ne.symm hkl)]
        exact hdivides
    · rintro ⟨k, l, s', y, hs', hy, htakes⟩
      split at htakes
      · rename_i hkl
        obtain ⟨rfl, rfl⟩ := Prod.mk.inj hkl
        obtain rfl := Option.some.inj (hs.symm.trans hs')
        obtain rfl := Option.some.inj (ht.symm.trans hy)
        exact ⟨_, mem_tabs_iff.mp (mem_setTab hs ht),
          (SplitNode.divides_settingDividerWeight ..).mpr htakes⟩
      · rename_i hkl
        obtain ⟨s'', hget⟩ := (getElem?_setTab hs ht).mpr
          (by rw [if_neg (Ne.symm hkl)]; exact ⟨s', hs', hy⟩)
        exact ⟨y, ⟨k, l, s'', hget⟩, htakes⟩

/-! ## §5 Requests -/

/-- What the four requests ask of the topology they leave. -/
structure Request.Asked (t : WorkspaceTopology) (r : Request) (t' : WorkspaceTopology) : Prop where
  move : r.intent = some .movePane →
    ∀ moved, decodeMove r.args = .ok moved → MoveAsked moved t'.tree
  swap : r.intent = some .swapPanes →
    ∀ a b, decodeSwapPanes r.args = .ok (a, b) → SwapAsked a b t.tree t'.tree
  dock : r.intent = some .dockPaneAtTabEdge →
    ∀ dock, decodeDockAtTabEdge r.args = .ok dock → DockAsked dock t'.tree
  divider : r.intent = some .setDividerWeight → ∀ split index weight,
    decodeDividerWeight r.args = .ok (split, index, weight) →
      DividerAsked split index.toNat weight t'.tree

/-- What makes them go through: a move or a dock that makes a tree within
the depth cap, or asks for what is so; a swap within one tab; a divider
that takes the weight. -/
structure Request.GoesThrough (t : WorkspaceTopology) (r : Request) : Prop where
  move : r.intent = some .movePane → ∀ moved, decodeMove r.args = .ok moved →
    MoveAsked moved t.tree ∨ Fits (movedTree t.tree moved r.context.ids)
  swap : r.intent = some .swapPanes →
    ∀ a b, decodeSwapPanes r.args = .ok (a, b) → locate t.tree a = locate t.tree b
  dock : r.intent = some .dockPaneAtTabEdge → ∀ dock, decodeDockAtTabEdge r.args = .ok dock →
    DockAsked dock t.tree ∨ Fits (dockedTree t.tree dock r.context.ids)
  divider : r.intent = some .setDividerWeight → ∀ split index weight,
    decodeDividerWeight r.args = .ok (split, index, weight) →
      DividerTakes split index.toNat weight t.tree

theorem movePane_asked (h : movePane args t ids = .applied t') :
    ∀ moved, decodeMove args = .ok moved →
      (MoveAsked moved t'.tree ↔ MoveAsked moved t.tree ∨ Fits (movedTree t.tree moved ids)) := by
  obtain ⟨moved, hargs, h⟩ := withArgs_applied h
  intro moved' hargs'
  obtain rfl := Outcome.ok.inj (hargs.symm.trans hargs')
  split at h
  · cases h
  · split at h
    · cases h
    · rename_i hne
      simp only at h
      split at h
      · cases h
      · obtain ⟨rfl, -⟩ := accept_applied h
        obtain ⟨hgoes, hstays⟩ := moveLeafAcrossTabs_asked t.tree ids hne
        by_cases hfits : Fits (movedTree t.tree moved ids)
        · exact ⟨fun _ => .inr hfits, fun _ => hgoes hfits⟩
        · simp only [withTree, hstays hfits, hfits, or_false]

theorem dockPaneAtTabEdge_asked (h : dockPaneAtTabEdge args t ids = .applied t') :
    ∀ dock, decodeDockAtTabEdge args = .ok dock →
      (DockAsked dock t'.tree ↔ DockAsked dock t.tree ∨ Fits (dockedTree t.tree dock ids)) := by
  obtain ⟨dock, hargs, h⟩ := withArgs_applied h
  intro dock' hargs'
  obtain rfl := Outcome.ok.inj (hargs.symm.trans hargs')
  split at h
  · cases h
  · simp only at h
    split at h
    · cases h
    · obtain ⟨rfl, -⟩ := accept_applied h
      obtain ⟨hgoes, hstays⟩ := moveLeafToTabRootEdge_asked t.tree dock ids
      by_cases hfits : Fits (dockedTree t.tree dock ids)
      · exact ⟨fun _ => .inr hfits, fun _ => hgoes hfits⟩
      · simp only [pruned_tree, withTree, hstays hfits, hfits, or_false]

theorem swapPanes_applied (h : swapPanes args t = .applied t') :
    ∀ a b, decodeSwapPanes args = .ok (a, b) →
      (SwapAsked a b t.tree t'.tree ↔ locate t.tree a = locate t.tree b) := by
  obtain ⟨⟨a, b⟩, hargs, h⟩ := withArgs_applied h
  intro a' b' hargs'
  obtain ⟨rfl, rfl⟩ := Prod.mk.inj (Outcome.ok.inj (hargs.symm.trans hargs'))
  simp only at h
  split at h
  · cases h
  · rename_i hin
    split at h
    · cases h
    · rename_i hne
      obtain ⟨rfl, -⟩ := accept_applied h
      simp only [Bool.or_eq_true, Bool.not_eq_true', not_or, Bool.not_eq_false] at hin
      exact swapPanes_asked hne hin.1 hin.2

theorem setDividerWeight_applied (h : setDividerWeight args t = .applied t') :
    ∀ split index weight, decodeDividerWeight args = .ok (split, index, weight) →
      (DividerAsked split index.toNat weight t'.tree ↔
        DividerTakes split index.toNat weight t.tree) := by
  obtain ⟨⟨split, index, weight⟩, hargs, h⟩ := withArgs_applied h
  intro split' index' weight' hargs'
  obtain ⟨rfl, hpair⟩ := Prod.mk.inj (Outcome.ok.inj (hargs.symm.trans hargs'))
  obtain ⟨rfl, rfl⟩ := Prod.mk.inj hpair
  simp only at h
  split at h
  · cases h
  · split at h
    · cases h
    · obtain ⟨rfl, -⟩ := accept_applied h
      exact setDividerWeight_asked split index.toNat weight

/-- One of these requests that is applied has left what it asks for exactly
where it goes through; one that is refused leaves the topology as it
was. -/
theorem asked_iff_goesThrough (t : WorkspaceTopology) (r : Request) :
    (∀ t', r.answer t = .applied t' → (r.Asked t t' ↔ r.GoesThrough t)) ∧
      ((r.answer t).topology = none → settle t r = t) := by
  constructor
  · intro t' happlied
    have hmove : r.intent = some .movePane → ∀ moved, decodeMove r.args = .ok moved →
        (MoveAsked moved t'.tree ↔
          MoveAsked moved t.tree ∨ Fits (movedTree t.tree moved r.context.ids)) := fun hop => by
      rw [Request.answer, apply, ← Request.intent, hop] at happlied
      exact movePane_asked happlied
    have hswap : r.intent = some .swapPanes → ∀ a b, decodeSwapPanes r.args = .ok (a, b) →
        (SwapAsked a b t.tree t'.tree ↔ locate t.tree a = locate t.tree b) := fun hop => by
      rw [Request.answer, apply, ← Request.intent, hop] at happlied
      exact swapPanes_applied happlied
    have hdock : r.intent = some .dockPaneAtTabEdge → ∀ dock, decodeDockAtTabEdge r.args = .ok dock →
        (DockAsked dock t'.tree ↔
          DockAsked dock t.tree ∨ Fits (dockedTree t.tree dock r.context.ids)) := fun hop => by
      rw [Request.answer, apply, ← Request.intent, hop] at happlied
      exact dockPaneAtTabEdge_asked happlied
    have hdivider : r.intent = some .setDividerWeight → ∀ split index weight,
        decodeDividerWeight r.args = .ok (split, index, weight) →
        (DividerAsked split index.toNat weight t'.tree ↔
          DividerTakes split index.toNat weight t.tree) := fun hop => by
      rw [Request.answer, apply, ← Request.intent, hop] at happlied
      exact setDividerWeight_applied happlied
    constructor
    · exact fun h => ⟨fun hop m hm => (hmove hop m hm).mp (h.move hop m hm),
        fun hop a b hab => (hswap hop a b hab).mp (h.swap hop a b hab),
        fun hop d hd => (hdock hop d hd).mp (h.dock hop d hd),
        fun hop i n w hw => (hdivider hop i n w hw).mp (h.divider hop i n w hw)⟩
    · exact fun h => ⟨fun hop m hm => (hmove hop m hm).mpr (h.move hop m hm),
        fun hop a b hab => (hswap hop a b hab).mpr (h.swap hop a b hab),
        fun hop d hd => (hdock hop d hd).mpr (h.dock hop d hd),
        fun hop i n w hw => (hdivider hop i n w hw).mpr (h.divider hop i n w hw)⟩
  · intro hrefused
    rw [settle, IntentOutcome.resulting, hrefused, Option.getD_none]

/-- The second of two panes, moved below the first. -/
theorem asked_iff_goesThrough_moved :
    let r : Request := ⟨7, (uniform 4).bytes ++ (uniform 3).bytes ++ [1, 0], minting 11⟩
    r.answer twoPanes = .applied (settle twoPanes r) ∧ r.Asked twoPanes (settle twoPanes r) := by
  intro r
  have happlied : r.answer twoPanes = .applied (settle twoPanes r) := applied_of_isSome (by decide +kernel)
  refine ⟨happlied, ((asked_iff_goesThrough twoPanes r).1 _ happlied).mpr ⟨fun _ moved hm => .inr ?_,
    fun h => absurd h (by decide), fun h => absurd h (by decide), fun h => absurd h (by decide)⟩⟩
  have hargs : decodeMove r.args = .ok ⟨uniform 4, uniform 3, .vertical, false⟩ := by decide +kernel
  cases hargs.symm.trans hm
  decide +kernel

/-- Two tabs of one pane each. -/
def twoTabs : WorkspaceTopology := settle twoPanes ⟨21, (uniform 4).bytes, minting 11⟩

/-- A swap of panes of two tabs is answered `applied` and exchanges
nothing. -/
theorem swap_across_tabs :
    let r : Request := ⟨22, (uniform 3).bytes ++ (uniform 4).bytes, minting 12⟩
    ∃ t', r.answer twoTabs = .applied t' ∧ ¬ r.Asked twoTabs t' := by
  intro r
  refine ⟨settle twoTabs r, applied_of_isSome (by decide +kernel), fun h => ?_⟩
  have hargs : decodeSwapPanes r.args = .ok (uniform 3, uniform 4) := by decide +kernel
  have hstays : position (settle twoTabs r).tree (uniform 3) ≠ position twoTabs.tree (uniform 4) := by
    decide +kernel
  exact hstays (h.swap rfl _ _ hargs).1

end SlopDesk.Document
