/-
SlopDesk.Tree.TreeOpsTheorems — every operation of `TreeOps` is an edit.

One lemma for each: which panes and tabs it brings in, and which pane, if
any, it brings to the front without touching the zoom. An operation that
draws identities brings in the next of each kind at most.

  §1 Within a tab       — titles, dividers, swaps, moves.
  §2 Out of a tab       — what a leaf leaves behind.
  §3 Between tabs       — moves and docks.
  §4 New panes and tabs.
  §5 Closes             — with the cascade.
  §6 Detached panes.
  §7 Sessions.
-/
import SlopDesk.Tree.Edits

namespace SlopDesk.Tree

open SlopDesk.Base

variable {shown : Prop} {panes : List PaneId} {tabs : List TabId}
variable {ws : TreeWorkspace} {s : Session} {tab : Tab} {i j : Nat} {ids : IdSource}
variable {axis : SplitAxis} {before : Bool} {fresh : SplitNodeId} {target pane : PaneId}
variable {successor : Option TabId}
variable {grown : SplitNode} {leaf : PaneId} {edge : PaneDropEdge} {destination : Tab} {k : Nat}
variable {s' : Session} {specs : BTreeMap PaneId PaneSpec}
variable (session : SessionId)

/-! ## §1 Within a tab -/

theorem renameTab_edit (id : TabId) (title : String) :
    ws.Edit shown panes tabs (renameTab ws id title) := by
  unfold renameTab
  split
  · exact .refl
  · refine editingTab_edit fun s tab tab' _ _ hedit => ?_
    obtain rfl := Option.some.inj hedit
    exact ⟨.renamed tab title, rfl, fun _ p => by simp [Tab.allPaneIds]⟩

theorem setDividerWeight_edit (split : SplitNodeId) (index : Nat) (weight : F64) :
    ws.Edit shown panes tabs (setDividerWeight ws split index weight) := by
  unfold setDividerWeight
  split
  · exact .refl
  · refine editingTab_edit fun s tab tab' _ _ hedit => ?_
    obtain rfl := Option.some.inj hedit
    have hpanes := SplitNode.settingDividerWeight_allPaneIds tab.root split index weight
    refine ⟨.reshaped (fun p => ?_) (fun h => SplitNode.settingDividerWeight_shaped h split index weight),
      rfl, fun _ p => ?_⟩
    · rw [hpanes]
      exact Iff.rfl
    · simp only [Tab.allPaneIds, hpanes, List.count_append]
      omega

namespace SplitNode

variable {node : SplitNode}

theorem mem_swapping (node : SplitNode) (a b p : PaneId) :
    p ∈ (node.swapping a b).allPaneIds ↔ p ∈ node.allPaneIds := by
  by_cases h : a = b ∨ a ∉ node.allPaneIds ∨ b ∉ node.allPaneIds
  · rw [swapping, if_pos]
    simpa [← Bool.not_eq_true, or_assoc] using h
  · simp only [not_or, Decidable.not_not] at h
    obtain ⟨hab, ha, hb⟩ := h
    rw [swapping, if_neg (by simp [hab, contains_iff.mpr ha, contains_iff.mpr hb]), mapLeaves_allPaneIds,
      List.mem_map]
    refine ⟨fun hmem => ?_, fun hp => ⟨exchanging a b p, ?_, exchanging_exchanging a b p⟩⟩
    · obtain ⟨q, hq, heq⟩ := hmem
      rw [← heq, exchanging]
      split
      · exact hb
      · split
        · exact ha
        · exact hq
    · grind [exchanging]

theorem swapping_shaped (h : Shaped node) (a b : PaneId) : Shaped (node.swapping a b) := by
  rw [swapping]
  split
  · exact h
  · exact mapLeaves_shaped _ h

theorem swapping_nodup (h : node.allPaneIds.Nodup) (a b : PaneId) :
    (node.swapping a b).allPaneIds.Nodup := by
  rw [swapping]
  split
  · exact h
  · rw [mapLeaves_allPaneIds]
    exact h.map (exchanging_injective a b)

/-- Two lists without repetitions that have the same elements have them as
often. -/
theorem count_of_nodup {xs ys : List PaneId} (hx : xs.Nodup) (h : ∀ p, p ∈ xs ↔ p ∈ ys) (p : PaneId) :
    xs.count p ≤ ys.count p := by
  by_cases hp : p ∈ xs
  · grind
  · simp [List.count_eq_zero_of_not_mem hp]

end SplitNode

theorem swapPanes_edit (a b : PaneId) : ws.Edit shown panes tabs (swapPanes ws a b) := by
  unfold swapPanes
  split
  · exact .refl
  · split
    · split
      · exact .refl
      · refine editingTab_edit fun s tab tab' _ _ hedit => ?_
        obtain rfl := Option.some.inj hedit
        have hsame := SplitNode.mem_swapping tab.root a b
        refine ⟨.reshaped hsame (fun h => SplitNode.swapping_shaped h a b), rfl, fun hnodup p => ?_⟩
        have hcount := SplitNode.count_of_nodup (SplitNode.swapping_nodup hnodup a b) hsame p
        simp only [Tab.allPaneIds, List.count_append]
        omega
    · exact .refl

theorem insertingBeside_some {node : SplitNode}
    (h : node.insertingBeside leaf target axis before fresh = some grown) :
    target ∈ node.allPaneIds ∧ grown = node.insertBesideImpl leaf target axis before fresh := by
  rw [SplitNode.insertingBeside] at h
  split at h
  · rename_i hcontains
    exact ⟨SplitNode.contains_iff.mp hcontains, (Option.some.inj h).symm⟩
  · cases h

theorem rearranged_edit {pruned relocated : SplitNode} {tab' : Tab}
    (hmem : pane ∈ tab.allPaneIds) (hpruned : tab.root.removing pane = some pruned)
    (hpanes : ∀ p, p ∈ relocated.allPaneIds ↔ p = pane ∨ p ∈ pruned.allPaneIds)
    (hshaped : Shaped pruned → Shaped relocated) (hcount : pruned.allPaneIds.Nodup →
      ∀ p, relocated.allPaneIds.count p ≤ (pane :: pruned.allPaneIds).count p)
    (h : tab.rearranged pane relocated = some tab')
    (hseen : shown → tab.zoomedPane = none ∨ tab.zoomedPane = some pane) :
    tab.Step shown tab' ∧ tab'.id = tab.id ∧
      (tab.allPaneIds.Nodup → ∀ p, tab'.allPaneIds.count p ≤ (panes ++ tab.allPaneIds).count p) := by
  rw [Tab.rearranged] at h
  split at h
  · cases h
  · obtain rfl := Option.some.inj h
    have hleft := SplitNode.removing_some hpruned
    refine ⟨.rearranged hseen hmem (fun p => ?_) (fun hs => hshaped (SplitNode.removing_shaped hs hpruned)),
      rfl, fun hnodup p => ?_⟩
    · rw [hpanes, hleft, List.mem_filter]
      by_cases hp : p = pane
      · simp [hp, hmem]
      · simp [hp, Tab.allPaneIds]
    · have hgrown := hcount (hleft ▸ hnodup.filter _) p
      have hremoved := SplitNode.count_removing hpruned p
      have hone := List.count_pos_iff.mpr hmem
      simp only [List.count_cons, List.count_append, Tab.allPaneIds] at hgrown hone ⊢
      by_cases hp : p = pane
      · subst hp
        simp at hgrown hremoved
        omega
      · simp [hp, Ne.symm hp] at hgrown hremoved
        omega

/-- The tab of a pane, in what it is located at. -/
def TreeWorkspace.Holds (ws : TreeWorkspace) (pane : PaneId) (tab : Tab) : Prop :=
  ∃ i j s, locate ws pane = some (i, j) ∧ ws.sessions[i]? = some s ∧ s.tabs[j]? = some tab

theorem moveLeaf_edit (hseen : shown → ∀ tab tab', ws.Holds pane tab → locate ws pane = locate ws target →
      tab.movedBeside pane target axis before ids.split.1 = some tab' →
      tab.zoomedPane = none ∨ tab.zoomedPane = some pane) :
    ws.Edit shown panes tabs (moveLeaf ws pane target axis before ids) := by
  unfold moveLeaf
  split
  · exact .refl
  · split
    · rename_i start goal hstart hgoal
      split
      · exact .refl
      · rename_i hsame
        refine editingTab_edit fun s tab tab' hs ht hedit => ?_
        obtain ⟨s', t', hs', ht', hmem⟩ := locate_spec hstart
        obtain rfl := Option.some.inj (hs.symm.trans hs')
        obtain rfl := Option.some.inj (ht.symm.trans ht')
        have hgoal' : locate ws pane = locate ws target := by
          rw [hstart, hgoal, Decidable.not_not.mp hsame]
        obtain ⟨pruned, hpruned, hrest⟩ := Option.bind_eq_some_iff.mp hedit
        obtain ⟨relocated, hrelocated, hmoved⟩ := Option.bind_eq_some_iff.mp hrest
        obtain ⟨htarget, rfl⟩ := insertingBeside_some hrelocated
        exact rearranged_edit hmem hpruned (fun p => SplitNode.mem_insertBesideImpl htarget)
          SplitNode.insertBesideImpl_shaped (fun hn => SplitNode.count_insertBesideImpl hn) hmoved
          fun h => hseen h tab tab' ⟨_, _, s, hstart, hs, ht⟩ hgoal' hedit
    · exact .refl

theorem SplitNode.mem_insertingAtRoot (node : SplitNode) (p : PaneId) :
    p ∈ (node.insertingAtRoot leaf axis before fresh).allPaneIds ↔ p = leaf ∨ p ∈ node.allPaneIds := by
  rw [insertingAtRoot_allPaneIds]
  cases before <;> simp [or_comm]

theorem moveLeafToRootEdge_edit
    (hseen : shown → ∀ tab tab', ws.Holds pane tab → tab.movedToEdge pane edge ids.split.1 = some tab' →
      tab.zoomedPane = none ∨ tab.zoomedPane = some pane) :
    ws.Edit shown panes tabs (moveLeafToRootEdge ws pane edge ids) := by
  unfold moveLeafToRootEdge
  split
  · exact .refl
  · rename_i si ti hstart
    refine editingTab_edit fun s tab tab' hs ht hedit => ?_
    obtain ⟨s', t', hs', ht', hmem⟩ := locate_spec hstart
    obtain rfl := Option.some.inj (hs.symm.trans hs')
    obtain rfl := Option.some.inj (ht.symm.trans ht')
    have hmoved := hedit
    rw [Tab.movedToEdge] at hmoved
    split at hmoved
    · cases hmoved
    · obtain ⟨pruned, hpruned, hmoved⟩ := Option.bind_eq_some_iff.mp hmoved
      exact rearranged_edit hmem hpruned (fun p => SplitNode.mem_insertingAtRoot pruned p)
        SplitNode.insertingAtRoot_shaped (fun _ p => (SplitNode.count_insertingAtRoot pruned p).le) hmoved
        fun h => hseen h tab tab' ⟨_, _, s, hstart, hs, ht⟩ hedit

theorem focusPane_edit (target : PaneId) : ws.Edit shown panes tabs (focusPane ws target) := by
  unfold focusPane
  cases hloc : locate ws target with
  | none => exact .refl
  | some at_ =>
    obtain ⟨si, ti⟩ := at_
    obtain ⟨s, tab, hs, ht, hmem⟩ := locate_spec hloc
    have hset : s.Edit shown panes tabs (s.setTab ti { tab with
        activePane := some target
        zoomedPane := if tab.zoomedPane ≠ some target then none else tab.zoomedPane }) :=
      .setTab ht (.focused hmem) rfl fun _ p => by simp [Tab.allPaneIds]
    obtain ⟨hti, -⟩ := List.getElem?_eq_some_iff.mp ht
    have hselected : s.Edit shown panes tabs { s.setTab ti { tab with
        activePane := some target
        zoomedPane := if tab.zoomedPane ≠ some target then none else tab.zoomedPane } with
      activeTabIndex := ti } := { hset with indexed := fun _ => by simpa [Session.setTab] using hti }
    simpa [hs, ht] using hselected.setActive hs

/-! ## §2 Out of a tab -/

theorem pruned_step {root : SplitNode} {refocus : Option PaneId}
    (h : tab.root.removing target = some root) (hheld : ∀ p, refocus = some p → p ∈ root.allPaneIds) :
    tab.Step shown (tab.pruned target root refocus) := by
  refine .pruned (fun p => ?_) hheld fun hs => SplitNode.removing_shaped hs h
  rw [SplitNode.removing_some h, List.mem_filter]
  simp [Tab.allPaneIds]

theorem neighbour_mem {found : PaneId} (h : neighbour target tab = some found) :
    found ∈ tab.allPaneIds ∧ found ≠ target := by
  rcases Option.or_eq_some_iff.mp h with hside | ⟨-, hother⟩
  · obtain ⟨direction, -, hdir⟩ := List.exists_of_findSome?_eq_some hside
    obtain ⟨hnext, hne⟩ := Option.filter_eq_some_iff.mp hdir
    exact ⟨solve_mem (neighbor_mem hnext), by simpa using hne⟩
  · exact ⟨List.mem_of_find?_eq_some hother, by simpa using List.find?_some hother⟩

theorem pruneLeafFromTab_cases (pane : PaneId) (ht : s.tabs[j]? = some tab) :
    (∃ root, tab.root.removing pane = some root ∧
      pruneLeafFromTab s pane j = s.setTab j (tab.pruned pane root none)) ∨
    (tab.root.removing pane = none ∧
      pruneLeafFromTab s pane j = { s with tabs := s.tabs.eraseIdx j }) := by
  cases hr : tab.root.removing pane with
  | some root => exact .inl ⟨root, rfl, by simp [pruneLeafFromTab, ht, hr]⟩
  | none => exact .inr ⟨rfl, by simp [pruneLeafFromTab, ht, hr]⟩

theorem pruneLeafFromTab_moves (shown : Prop) (ht : s.tabs[j]? = some tab) (hmem : pane ∈ tab.allPaneIds) :
    Derived shown s.tabs (pruneLeafFromTab s pane j).tabs ∧
      (∀ p, (pane :: (pruneLeafFromTab s pane j).placed).count p ≤ s.placed.count p) ∧
      (pruneLeafFromTab s pane j).tabIds.Sublist s.tabIds := by
  have hone := List.count_pos_iff.mpr hmem
  rcases pruneLeafFromTab_cases pane ht with ⟨root, hr, heq⟩ | ⟨-, heq⟩
  · rw [heq]
    refine ⟨.set (.step (List.mem_of_getElem? ht) (pruned_step hr (by simp))), fun p => ?_, ?_⟩
    · have hset := Position.count_set Tab.allPaneIds p (y := tab.pruned pane root none) ht
      have hremoved : (tab.pruned pane root none).allPaneIds.count p =
          if p = pane then 0 else tab.allPaneIds.count p := SplitNode.count_removing hr p
      simp only [List.count_cons, Session.count_placed]
      simp only [Session.setTab, Session.detachedIds]
      by_cases hp : p = pane
      · grind
      · grind
    · have hids : (s.tabs.set j (tab.pruned pane root none)).map Tab.id = s.tabs.map Tab.id := by
        obtain ⟨pre, post, hcut, rfl⟩ := Position.of_getElem? ht
        simp [hcut, Tab.pruned]
      simp only [Session.setTab, Session.tabIds_eq, hids]
      exact .refl _
  · rw [heq]
    refine ⟨.eraseIdx, fun p => ?_, ?_⟩
    · have herase := Position.count_eraseIdx Tab.allPaneIds p ht
      simp only [List.count_cons, Session.count_placed]
      simp only [Session.detachedIds]
      by_cases hp : p = pane
      · grind
      · simp only [Ne.symm hp, beq_iff_eq, if_false]
        omega
    · grind [Session.tabIds_eq]

/-! ## §3 Between tabs -/

/-- Where no two tabs have one id, the tab found again by its id, once a
leaf has left another tab, is the same one. -/
theorem found_after_prune {found : Tab} (hunique : s.tabIds.Nodup)
    (ht : s.tabs[j]? = some tab) (hd : s.tabs[k]? = some destination) (hne : j ≠ k)
    (hfound : found ∈ (pruneLeafFromTab s pane j).tabs) (hid : found.id = destination.id) :
    found = destination := by
  have hmap := Session.tabIds_eq s ▸ hunique
  have hother : tab ≠ destination := by
    rintro rfl
    obtain ⟨hj, hjeq⟩ := List.getElem?_eq_some_iff.mp ht
    obtain ⟨hk, hkeq⟩ := List.getElem?_eq_some_iff.mp hd
    exact hne ((List.Nodup.getElem_inj_iff hmap.of_map).mp (hjeq.trans hkeq.symm))
  have hin : found ∈ s.tabs := by
    rcases pruneLeafFromTab_cases pane ht with ⟨root, -, heq⟩ | ⟨-, heq⟩
    · rw [heq] at hfound
      rcases List.mem_or_eq_of_mem_set hfound with hold | rfl
      · exact hold
      · -- it is not the tab the pane left
        exact absurd (Tab.eq_of_id hunique (List.mem_of_getElem? ht) (List.mem_of_getElem? hd) hid) hother
    · rw [heq] at hfound
      exact List.mem_of_mem_eraseIdx hfound
  exact Tab.eq_of_id hunique hin (List.mem_of_getElem? hd) hid

/-- A pane that leaves its tab and lands in another one, whose tree it
grew. -/
theorem landed_edit
    (ht : s.tabs[j]? = some tab) (hmem : pane ∈ tab.allPaneIds) (hd : s.tabs[k]? = some destination)
    (hne : j ≠ k) (hpanes : ∀ p, p ∈ grown.allPaneIds ↔ p = pane ∨ p ∈ destination.allPaneIds)
    (hshaped : Shaped destination.root → Shaped grown) (hcount : destination.allPaneIds.Nodup →
      ∀ p, grown.allPaneIds.count p ≤ (pane :: destination.allPaneIds).count p)
    (h : s.landed pane j destination.id grown = some s') : s.Edit shown panes tabs s' := by
  obtain ⟨hderived, hplaced, hids⟩ := pruneLeafFromTab_moves shown ht hmem
  obtain ⟨index, hindex, hrest⟩ := Option.bind_eq_some_iff.mp h
  obtain ⟨found, hfound, hlanded⟩ := Option.bind_eq_some_iff.mp hrest
  obtain ⟨found', hfound', hid⟩ := tabIndexOf_spec hindex
  obtain rfl := Option.some.inj (hfound.symm.trans hfound')
  obtain rfl := Option.some.inj hlanded
  obtain ⟨hlt, -⟩ := List.getElem?_eq_some_iff.mp hfound
  have hstep : destination.Steps shown
      { found with root := grown, activePane := some pane, zoomedPane := none } := by
    refine .tail (.single (.grown hpanes hshaped)) ?_
    rw [hid]
    exact .renamed _ found.title
  have hname : (pruneLeafFromTab s pane j).id = s.id := by
    rcases pruneLeafFromTab_cases pane ht with ⟨root, -, heq⟩ | ⟨-, heq⟩ <;>
      simp [heq, Session.setTab]
  refine { id := hname, derived := ?_, placed := fun hnodup hunique p => ?_, tabIds := fun _ id => ?_,
           peopled := fun _ => ?_, indexed := fun _ => by simpa [Session.setTab] using hlt }
  · intro t htab
    rcases List.mem_or_eq_of_mem_set htab with hold | rfl
    · exact hderived t hold
    · exact .inl ⟨destination, List.mem_of_getElem? hd, hstep⟩
  · obtain rfl := found_after_prune hunique ht hd hne (List.mem_of_getElem? hfound) hid
    have hset := Position.count_set Tab.allPaneIds p
      (y := { found with root := grown, activePane := some pane, zoomedPane := none }) hfound
    have hgrown : ({ found with root := grown, activePane := some pane, zoomedPane := none } :
        Tab).allPaneIds.count p ≤ (pane :: found.allPaneIds).count p :=
      hcount (Tab.nodup hnodup (List.mem_of_getElem? hd)) p
    have hleft := hplaced p
    simp only [List.count_cons, List.count_append, Session.count_placed] at hgrown hleft ⊢
    simp only [Session.setTab, Session.detachedIds] at hleft ⊢
    omega
  · have hset := Position.count_set (fun tab : Tab => [tab.id]) id
      (y := { found with root := grown, activePane := some pane, zoomedPane := none }) hfound
    have hle := hids.count_le id
    simp only [Session.tabIds, List.count_append] at hset hle ⊢
    simp only [Session.setTab]
    omega
  · grind [Session.setTab, List.length_set, List.length_nil]

theorem moveLeafAcrossTabs_edit
    (hseen : shown → ∀ tab tab', ws.Holds pane tab → locate ws pane = locate ws target →
      tab.movedBeside pane target axis before ids.split.1 = some tab' →
      tab.zoomedPane = none ∨ tab.zoomedPane = some pane) :
    ws.Edit shown panes tabs (moveLeafAcrossTabs ws pane target axis before ids) := by
  unfold moveLeafAcrossTabs
  split
  · exact .refl
  · split
    · rename_i si sourceTab targetSession targetTab hstart _
      split
      · exact .refl
      · split
        · exact moveLeaf_edit hseen
        · rename_i hne
          cases hmoved : moveLeafAcrossTabs? ws pane target axis before si sourceTab targetTab ids with
          | none => exact .refl
          | some ws' =>
            obtain ⟨s, tab, hs, ht, hmem⟩ := locate_spec hstart
            simp only [moveLeafAcrossTabs?, hs, Option.bind_eq_bind, Option.bind_some] at hmoved
            obtain ⟨destination, hd, hrest⟩ := Option.bind_eq_some_iff.mp hmoved
            obtain ⟨grown, hgrown, hrest⟩ := Option.bind_eq_some_iff.mp hrest
            split at hrest
            · cases hrest
            · obtain ⟨s', hlanded, hset⟩ := Option.bind_eq_some_iff.mp hrest
              obtain rfl := Option.some.inj hset
              obtain ⟨htarget, rfl⟩ := insertingBeside_some hgrown
              exact (landed_edit ht hmem hd hne (fun p => SplitNode.mem_insertBesideImpl htarget)
                SplitNode.insertBesideImpl_shaped (fun hn => SplitNode.count_insertBesideImpl hn)
                hlanded).setSession hs
    · exact .refl

theorem moveLeafToTabRootEdge_edit {destination : TabId}
    (hseen : shown → ∀ tab tab', ws.Holds pane tab → tab.movedToEdge pane edge ids.split.1 = some tab' →
      tab.id = destination → tab.zoomedPane = none ∨ tab.zoomedPane = some pane) :
    ws.Edit shown panes tabs (moveLeafToTabRootEdge ws pane destination edge ids) := by
  unfold moveLeafToTabRootEdge
  split
  · exact .refl
  · rename_i si sourceTab hstart
    split
    · exact .refl
    · rename_i targetIndex htarget
      split
      · rename_i hsame
        refine moveLeafToRootEdge_edit fun h tab tab' hholds hmoved => hseen h tab tab' hholds hmoved ?_
        obtain ⟨i, j, s, hloc, hs, ht⟩ := hholds
        obtain ⟨rfl, rfl⟩ := Prod.mk.inj (Option.some.inj (hstart.symm.trans hloc))
        rw [hs, Option.bind_some, ← hsame] at htarget
        obtain ⟨found, hfound, hid⟩ := tabIndexOf_spec htarget
        obtain rfl := Option.some.inj (ht.symm.trans hfound)
        exact hid
      · rename_i hne
        cases hmoved : moveLeafToTabRootEdge? ws pane edge si sourceTab targetIndex ids with
        | none => exact .refl
        | some ws' =>
          obtain ⟨s, tab, hs, ht, hmem⟩ := locate_spec hstart
          simp only [moveLeafToTabRootEdge?, hs, Option.bind_eq_bind, Option.bind_some] at hmoved
          obtain ⟨targetTab, hd, hrest⟩ := Option.bind_eq_some_iff.mp hmoved
          split at hrest
          · cases hrest
          · obtain ⟨s', hlanded, hset⟩ := Option.bind_eq_some_iff.mp hrest
            obtain rfl := Option.some.inj hset
            exact (landed_edit ht hmem hd hne (fun p => SplitNode.mem_insertingAtRoot _ p)
              SplitNode.insertingAtRoot_shaped (fun _ p => (SplitNode.count_insertingAtRoot _ p).le)
              hlanded).setSession hs

/-! ## §4 New panes and tabs -/

theorem splitPane_edit (target pane : PaneId) (axis : SplitAxis) (spec : PaneSpec) (before : Bool) :
    ws.Edit shown [pane] tabs (splitPane ws target axis spec before pane ids) := by
  unfold splitPane
  cases hsplit : splitPane? ws target axis spec before pane ids with
  | none => exact .refl
  | some ws' =>
    obtain ⟨⟨si, ti⟩, hloc, hrest⟩ := Option.bind_eq_some_iff.mp hsplit
    obtain ⟨s, tab, hs, ht, hmem⟩ := locate_spec hloc
    simp only [hs, ht, Option.bind_eq_bind, Option.bind_some, SplitNode.splitting,
      if_pos (SplitNode.contains_iff.mpr hmem)] at hrest
    obtain rfl := Option.some.inj hrest
    have hset : s.Edit shown [pane] tabs (s.setTab ti { tab with
        root := tab.root.insertBesideImpl pane target axis before ids.split.1
        activePane := some pane
        zoomedPane := none }) :=
      .setTab ht (.grown (fun p => SplitNode.mem_insertBesideImpl hmem) SplitNode.insertBesideImpl_shaped)
        rfl fun hn p => SplitNode.count_insertBesideImpl hn p
    exact (hset.withSpecs (s.specs.insert pane spec)).setSession hs

theorem newTabIndex_le (s : Session) (position : NewTabPosition) :
    s.newTabIndex position ≤ s.tabs.length := by
  cases position <;> simp only [Session.newTabIndex, NewTabPosition.insertionIndex]
  all_goals first | exact le_rfl | (split <;> [omega; (split <;> omega)])

theorem inserted_counts (s : Session) (position : NewTabPosition) (tab : Tab) (p : PaneId) (id : TabId) :
    ((s.tabs.insertIdx (s.newTabIndex position) tab).flatMap Tab.allPaneIds).count p =
        (s.tabs.flatMap Tab.allPaneIds).count p + tab.allPaneIds.count p ∧
      ((s.tabs.insertIdx (s.newTabIndex position) tab).flatMap fun tab => [tab.id]).count id =
        (s.tabs.flatMap fun tab => [tab.id]).count id + [tab.id].count id ∧
      s.newTabIndex position < (s.tabs.insertIdx (s.newTabIndex position) tab).length := by
  have hle := newTabIndex_le s position
  refine ⟨Position.count_insertIdx _ _ hle, Position.count_insertIdx _ _ hle, ?_⟩
  rw [List.length_insertIdx_of_le_length hle]
  omega

theorem newTab_edit (spec : PaneSpec) (position : NewTabPosition) (tab : TabId) (pane : PaneId) :
    ws.Edit shown [pane] [tab] (newTab ws spec position tab pane) := by
  unfold newTab
  split
  · exact .refl
  · refine editingSession_edit fun s s' _ hedit => ?_
    obtain rfl := Option.some.inj hedit
    have hcounts := inserted_counts s position (.new tab (.leaf pane))
    obtain ⟨-, -, hlt⟩ := hcounts pane tab
    refine { id := rfl, derived := .insertIdx (.new tab pane), placed := fun _ _ p => ?_,
             tabIds := fun _ id => ?_, peopled := fun _ => ?_, indexed := fun _ => hlt }
    · have hcount := (hcounts p tab).1
      have hnew : (Tab.new tab (.leaf pane)).allPaneIds = [pane] := rfl
      simp only [List.count_append, Session.count_placed]
      simp only [Session.detachedIds]
      rw [hnew] at hcount
      omega
    · have hcount := (hcounts pane id).2.1
      have hnew : (Tab.new tab (.leaf pane)).id = tab := rfl
      simp only [List.count_append, Session.tabIds]
      rw [hnew] at hcount
      omega
    · exact List.ne_nil_of_length_pos (Nat.zero_lt_of_lt hlt)

/-- A session a tab is put back into. -/
def Session.received (s : Session) (tab : Tab) (specs : BTreeMap PaneId PaneSpec)
    (position : NewTabPosition) : Session :=
  { s with
    specs := insertSpecs s.specs specs tab.allPaneIds
    tabs := s.tabs.insertIdx (s.newTabIndex position) tab
    activeTabIndex := s.newTabIndex position }

section

variable (ws : TreeWorkspace) (specs : BTreeMap PaneId PaneSpec) (position : NewTabPosition) (tab : Tab)

theorem insertTab_cases : insertTab ws tab specs position = ws ∨ ∃ si s, ws.sessions[si]? = some s ∧
      insertTab ws tab specs position =
        (ws.setSession si (s.received tab specs position)).normalizingSpecs := by
  unfold insertTab
  split
  · exact .inl rfl
  · rename_i si hindex
    obtain ⟨s, hs⟩ := activeSessionIndex_spec hindex
    exact .inr ⟨si, s, hs, by simp [editingSession, hs, Session.received]⟩

theorem insertTab_derived : Derived shown (tab :: ws.tabs) (insertTab ws tab specs position).tabs := by
  rcases insertTab_cases ws specs position tab with heq | ⟨si, s, hs, heq⟩
  · rw [heq]
    exact .of_subset (List.subset_cons_self ..)
  · rw [heq]
    refine Derived.trans (fun t htab => ?_) (normalizingSpecs_derived _)
    obtain ⟨x, hx, hmem⟩ := TreeWorkspace.mem_tabs.mp htab
    rcases TreeWorkspace.mem_setSession hx with hold | rfl
    · exact Derived.refl t (List.mem_cons_of_mem _ (TreeWorkspace.mem_tabs.mpr ⟨x, hold, hmem⟩))
    · rcases List.eq_or_mem_of_mem_insertIdx hmem with rfl | hin
      · exact Derived.refl t List.mem_cons_self
      · exact Derived.refl t (List.mem_cons_of_mem _ (TreeWorkspace.tabs_subset hs hin))

theorem count_insertTab (p : PaneId) (id : TabId) :
    (insertTab ws tab specs position).placed.count p ≤ tab.allPaneIds.count p + ws.placed.count p ∧
      (insertTab ws tab specs position).tabIds.count id ≤ [tab.id].count id + ws.tabIds.count id := by
  rcases insertTab_cases ws specs position tab with heq | ⟨si, s, hs, heq⟩
  · rw [heq]
    omega
  · rw [heq, TreeWorkspace.tabIds_normalizingSpecs]
    have hspecs := TreeWorkspace.count_normalizingSpecs
      (ws.setSession si (s.received tab specs position)) p
    obtain ⟨hpanes, hids, -⟩ := inserted_counts s position tab p id
    have hplaced := Position.count_set Session.placed p (y := s.received tab specs position) hs
    have htabIds := Position.count_set Session.tabIds id (y := s.received tab specs position) hs
    simp only [Session.count_placed, Session.tabIds, Session.detachedIds, Session.received]
      at hplaced htabIds
    simp only [TreeWorkspace.placed, TreeWorkspace.tabIds, TreeWorkspace.setSession] at hspecs ⊢
    simp only [Session.received] at hspecs ⊢
    omega

theorem insertTab_settled : (ws.Peopled → (insertTab ws tab specs position).Peopled) ∧
      (ws.Indexed → (insertTab ws tab specs position).Indexed) ∧
      (ws.Named → (insertTab ws tab specs position).Named) := by
  rcases insertTab_cases ws specs position tab with heq | ⟨si, s, hs, heq⟩
  · rw [heq]
    exact ⟨id, id, id⟩
  · obtain ⟨-, -, hlt⟩ := inserted_counts s position tab tab.id tab.id
    have hmem : ∀ x ∈ (insertTab ws tab specs position).sessions, ∃ y, x = y.normalizingSpecs ∧
        (y ∈ ws.sessions ∨ y = s.received tab specs position) := fun x hx => by
      rw [heq] at hx
      obtain ⟨y, hy, rfl⟩ := List.mem_map.mp hx
      exact ⟨y, rfl, TreeWorkspace.mem_setSession hy⟩
    refine ⟨fun h x hx => ?_, fun h x hx => ?_, fun h => ?_⟩
    · obtain ⟨y, rfl, hold | rfl⟩ := hmem x hx
      · exact h y hold
      · exact List.ne_nil_of_length_pos (Nat.zero_lt_of_lt hlt)
    · obtain ⟨y, rfl, hold | rfl⟩ := hmem x hx
      · exact h y hold
      · exact hlt
    · have hkept : (ws.setSession si (s.received tab specs position)).Named :=
        TreeWorkspace.named_setSession hs (by rfl) h
      obtain ⟨x, hx, hactive⟩ := hkept
      rw [heq]
      exact ⟨x.normalizingSpecs, List.mem_map_of_mem hx, hactive⟩

end

/-! ## §5 Closes -/

/-- A cascade selects a tab that is left, or takes the session along, or
puts a workspace of one pane in the place of an empty one. -/
theorem cascade_cases (s' : Session) (removed : Nat) (successor : Option TabId) (ids : IdSource)
    (hs : ws.sessions[i]? = some s) :
    (∃ index, cascadeAfterTabRemoval (ws.setSession i s') i removed successor ids =
      (ws.setSession i { s' with activeTabIndex := index }, ids)) ∨
    (∃ session ids', cascadeAfterTabRemoval (ws.setSession i s') i removed successor ids =
      (.defaultWorkspace session ids.tab.1 ids.pane.1, ids')) ∨
    (ws.sessions.eraseIdx i ≠ [] ∧ ∃ active,
      cascadeAfterTabRemoval (ws.setSession i s') i removed successor ids =
        (⟨ws.sessions.eraseIdx i, active⟩, ids)) := by
  obtain ⟨hi, -⟩ := List.getElem?_eq_some_iff.mp hs
  have hget : (ws.setSession i s').sessions[i]? = some s' := by
    simp [TreeWorkspace.setSession, hi]
  have herase : (ws.setSession i s').sessions.eraseIdx i = ws.sessions.eraseIdx i := by
    simp [TreeWorkspace.setSession, List.eraseIdx_set_eq]
  unfold cascadeAfterTabRemoval
  rw [hget]
  simp only [herase]
  split
  · split
    · exact .inl ⟨s'.activeTabIndex, rfl⟩
    · split
      · exact .inr (.inl ⟨_, _, rfl⟩)
      · rename_i hne
        refine .inr (.inr ⟨by simpa using hne, ?_⟩)
        split
        · exact ⟨_, rfl⟩
        · exact ⟨_, rfl⟩
  · exact .inl ⟨(successor.bind s'.tabIndexOf).getD (min removed (s'.tabs.length - 1)), by
      simp [TreeWorkspace.setSession]⟩

theorem cascade_edit {removed : Nat} (hs : ws.sessions[i]? = some s) (h : s.Moves shown [] [] s') :
    ws.Edit shown [ids.pane.1] [ids.tab.1]
      ((cascadeAfterTabRemoval (ws.setSession i s') i removed successor ids).1.normalized
        (cascadeAfterTabRemoval (ws.setSession i s') i removed successor ids).2).1 := by
  rcases cascade_cases s' removed successor ids hs with ⟨index, heq⟩ | ⟨session, ids', heq⟩ |
    ⟨hne, active, heq⟩
  · have hselected : s.Moves shown [] [] { s' with activeTabIndex := index } :=
      { id := h.id, derived := h.derived, placed := h.placed, tabIds := h.tabIds }
    rw [heq]
    exact hselected.normalized hs
  · have hdefault : ws.Edit shown [ids.pane.1] [ids.tab.1]
        (.defaultWorkspace session ids.tab.1 ids.pane.1) := defaultWorkspace_edit _ _ _
    rw [heq]
    exact hdefault.toMoves.normalized _ hdefault.peopled (by
      simp [TreeWorkspace.defaultWorkspace, TreeWorkspace.singlePane])
  · rw [heq]
    exact (erased_moves hs).normalized _ erased_peopled hne

/-- What a session that lost a tab is short of, the workspace is, but for
one pane in one tab. -/
theorem count_cascade (s' : Session) (removed : Nat) (successor : Option TabId) (ids : IdSource)
    (hs : ws.sessions[i]? = some s) (hp : ws.Peopled) (p : PaneId) (id : TabId) :
    ((cascadeAfterTabRemoval (ws.setSession i s') i removed successor ids).1.normalized
        (cascadeAfterTabRemoval (ws.setSession i s') i removed successor ids).2).1.placed.count p +
          s.placed.count p ≤ [ids.pane.1].count p + ws.placed.count p + s'.placed.count p ∧
    ((cascadeAfterTabRemoval (ws.setSession i s') i removed successor ids).1.normalized
        (cascadeAfterTabRemoval (ws.setSession i s') i removed successor ids).2).1.tabIds.count id +
          s.tabIds.count id ≤ [ids.tab.1].count id + ws.tabIds.count id + s'.tabIds.count id := by
  have hmem := List.mem_of_getElem? hs
  have hown := Position.count_le_of_mem Session.placed p hmem
  have hownIds := Position.count_le_of_mem Session.tabIds id hmem
  rcases cascade_cases s' removed successor ids hs with ⟨index, heq⟩ | ⟨session, ids', heq⟩ |
    ⟨hne, active, heq⟩
  · rw [heq]
    exact count_normalized { s' with activeTabIndex := index } ids hs hp p id
  · have hdefault : ws.Edit True [ids.pane.1] [ids.tab.1]
        (.defaultWorkspace session ids.tab.1 ids.pane.1) := defaultWorkspace_edit _ _ _
    have hpane : (TreeWorkspace.defaultWorkspace session ids.tab.1 ids.pane.1).placed = [ids.pane.1] := rfl
    have htab : (TreeWorkspace.defaultWorkspace session ids.tab.1 ids.pane.1).tabIds = [ids.tab.1] := rfl
    have hcount := count_normalized_peopled ids' (hdefault.peopled hp) (by
      simp [TreeWorkspace.defaultWorkspace, TreeWorkspace.singlePane]) p id
    rw [hpane, htab] at hcount
    rw [heq]
    simp only [TreeWorkspace.placed, TreeWorkspace.tabIds] at hcount ⊢
    omega
  · have herase := Position.count_eraseIdx Session.placed p hs
    have heraseIds := Position.count_eraseIdx Session.tabIds id hs
    have hleft : (⟨ws.sessions.eraseIdx i, active⟩ : TreeWorkspace).Peopled := erased_peopled hp
    have hcount := count_normalized_peopled ids hleft hne p id
    rw [heq]
    simp only [TreeWorkspace.placed, TreeWorkspace.tabIds] at hcount ⊢
    omega

theorem erasedTab_moves (ht : s.tabs[j]? = some tab) :
    s.Moves shown panes tabs { s with specs := specs, tabs := s.tabs.eraseIdx j } where
  id := rfl
  derived := .eraseIdx
  placed _ _ p := by
    have hcount := Position.count_eraseIdx Tab.allPaneIds p ht
    simp only [List.count_append, Session.count_placed]
    simp only [Session.detachedIds]
    omega
  tabIds _ id := by
    have hcount := Position.count_eraseIdx (fun tab : Tab => [tab.id]) id ht
    simp only [List.count_append, Session.tabIds]
    omega

theorem closePane_edit (target : PaneId) (successor : Option TabId) :
    ws.Edit shown [ids.pane.1] [ids.tab.1] (closePane ws target successor ids) := by
  unfold closePane
  cases hclose : closePane? ws target successor ids with
  | none => exact .refl
  | some ws' =>
    obtain ⟨⟨si, ti⟩, hloc, hrest⟩ := Option.bind_eq_some_iff.mp hclose
    obtain ⟨s, tab, hs, ht, hmem⟩ := locate_spec hloc
    simp only [hs, ht, Option.bind_eq_bind, Option.bind_some] at hrest
    cases hr : tab.root.removing target with
    | none =>
      rw [hr] at hrest
      obtain rfl := Option.some.inj hrest
      exact cascade_edit hs (erasedTab_moves ht)
    | some root =>
      rw [hr] at hrest
      obtain rfl := Option.some.inj hrest
      have hheld : ∀ p, neighbour target tab = some p → p ∈ root.allPaneIds := fun p hp => by
        obtain ⟨hin, hne⟩ := neighbour_mem hp
        rw [SplitNode.removing_some hr, List.mem_filter]
        exact ⟨hin, by simpa using hne⟩
      have hset : s.Edit shown [ids.pane.1] [ids.tab.1]
          (s.setTab ti (tab.pruned target root (neighbour target tab))) :=
        .setTab ht (pruned_step hr hheld) rfl fun _ p => by
          have hcount : (tab.pruned target root (neighbour target tab)).allPaneIds.count p =
            if p = target then 0 else tab.allPaneIds.count p := SplitNode.count_removing hr p
          rw [hcount, List.count_append]
          split <;> omega
      exact (Session.Edit.setSession hs (hset.withSpecs (s.specs.erase target))).normalizingSpecs

theorem closeTab_edit (tab : TabId) (successor : Option TabId) :
    ws.Edit shown [ids.pane.1] [ids.tab.1] (closeTab ws tab successor ids) := by
  unfold closeTab
  cases hclose : closeTab? ws tab successor ids with
  | none => exact .refl
  | some ws' =>
    obtain ⟨⟨si, ti⟩, hloc, hrest⟩ := Option.bind_eq_some_iff.mp hclose
    obtain ⟨s, closing, hs, ht, -⟩ := locateTab_spec hloc
    simp only [hs, ht, Option.bind_eq_bind, Option.bind_some] at hrest
    obtain rfl := Option.some.inj hrest
    exact cascade_edit hs (erasedTab_moves ht)

theorem count_erasedTab (specs : BTreeMap PaneId PaneSpec) (ht : s.tabs[j]? = some tab) (p : PaneId)
    (id : TabId) : ({ s with specs := specs, tabs := s.tabs.eraseIdx j } : Session).placed.count p +
        tab.allPaneIds.count p = s.placed.count p ∧
      ({ s with specs := specs, tabs := s.tabs.eraseIdx j } : Session).tabIds.count id +
        [tab.id].count id = s.tabIds.count id := by
  have hcount := Position.count_eraseIdx Tab.allPaneIds p ht
  have hids := Position.count_eraseIdx (fun tab : Tab => [tab.id]) id ht
  simp only [Session.count_placed, Session.tabIds]
  simp only [Session.detachedIds]
  constructor <;> omega

theorem count_closeTab {target : TabId}
    (hloc : locateTab ws target = some (i, j)) (hs : ws.sessions[i]? = some s)
    (ht : s.tabs[j]? = some tab) (hp : ws.Peopled) (p : PaneId) (id : TabId) :
    (closeTab ws target successor ids).placed.count p + tab.allPaneIds.count p ≤
        [ids.pane.1].count p + ws.placed.count p ∧
      (closeTab ws target successor ids).tabIds.count id + [tab.id].count id ≤
        [ids.tab.1].count id + ws.tabIds.count id := by
  have heq : closeTab? ws target successor ids = some ((cascadeAfterTabRemoval (ws.setSession i
      { s with specs := tab.allPaneIds.foldl (fun specs id => specs.erase id) s.specs
               tabs := s.tabs.eraseIdx j }) i j successor ids).1.normalized (cascadeAfterTabRemoval
      (ws.setSession i { s with
        specs := tab.allPaneIds.foldl (fun specs id => specs.erase id) s.specs
        tabs := s.tabs.eraseIdx j }) i j successor ids).2).1 := by
    simp [closeTab?, hloc, hs, ht]
  have herased := count_erasedTab (tab.allPaneIds.foldl (fun specs id => specs.erase id) s.specs) ht p id
  have hcascade := count_cascade { s with
    specs := tab.allPaneIds.foldl (fun specs id => specs.erase id) s.specs
    tabs := s.tabs.eraseIdx j } j successor ids hs hp p id
  rw [closeTab, heq, Option.getD_some]
  omega

theorem count_closePane (hloc : locate ws target = some (i, j)) (hs : ws.sessions[i]? = some s)
    (ht : s.tabs[j]? = some tab) (hlast : tab.root.removing target = none) (hp : ws.Peopled)
    (p : PaneId) (id : TabId) :
    (closePane ws target successor ids).placed.count p + tab.allPaneIds.count p ≤
        [ids.pane.1].count p + ws.placed.count p ∧
      (closePane ws target successor ids).tabIds.count id + [tab.id].count id ≤
        [ids.tab.1].count id + ws.tabIds.count id := by
  have heq : closePane? ws target successor ids = some ((cascadeAfterTabRemoval (ws.setSession i
      { s with specs := s.specs.erase target, tabs := s.tabs.eraseIdx j }) i j successor
      ids).1.normalized (cascadeAfterTabRemoval (ws.setSession i
      { s with specs := s.specs.erase target, tabs := s.tabs.eraseIdx j }) i j successor ids).2).1 := by
    simp [closePane?, hloc, hs, ht, hlast]
  have herased := count_erasedTab (s.specs.erase target) ht p id
  have hcascade := count_cascade { s with
    specs := s.specs.erase target, tabs := s.tabs.eraseIdx j } j successor ids hs hp p id
  rw [closePane, heq, Option.getD_some]
  omega

/-! ## §6 Detached panes -/

theorem detachPane_edit (target : PaneId) :
    ws.Edit shown [ids.pane.1] [ids.tab.1] (detachPane ws target ids) := by
  unfold detachPane
  cases hdetach : detachPane? ws target ids with
  | none => exact .refl
  | some ws' =>
    obtain ⟨⟨si, ti⟩, hloc, hrest⟩ := Option.bind_eq_some_iff.mp hdetach
    obtain ⟨s, origin, hs, ht, hmem⟩ := locate_spec hloc
    simp only [hs, ht, Option.bind_eq_bind, Option.bind_some] at hrest
    obtain rfl := Option.some.inj hrest
    obtain ⟨hderived, hplaced, hids⟩ := pruneLeafFromTab_moves shown ht hmem
    have hname : (pruneLeafFromTab s target ti).id = s.id := by
      rcases pruneLeafFromTab_cases target ht with ⟨root, -, heq⟩ | ⟨-, heq⟩ <;>
        simp [heq, Session.setTab]
    refine Session.Moves.normalized hs { id := hname, derived := hderived, placed := fun _ _ p => ?_,
                                         tabIds := fun _ id => hids.count_le id }
    have hcount := hplaced p
    simp only [Session.count_placed, List.count_cons, List.count_append] at hcount ⊢
    simp only [Session.detachedIds, List.map_append, List.map_cons, List.map_nil, List.count_append,
      List.count_cons] at hcount ⊢
    omega

theorem count_undetached (s : Session) (target p : PaneId) :
    ((s.detached.filter fun entry => entry.pane ≠ target).map DetachedPane.pane).count p =
      if p = target then 0 else s.detachedIds.count p := by
  rw [Session.detachedIds]
  induction s.detached with
  | nil => simp
  | cons entry rest ih =>
    grind

/-- A pane that comes back gets a tab of its own, or is docked in one that
is there. -/
theorem reattached_cases (s : Session) (target : PaneId) (id : TabId) (fresh : SplitNodeId) :
    s.reattached target id fresh = { s with
      detached := s.detached.filter fun entry => entry.pane ≠ target
      tabs := s.tabs ++ [.new id (.leaf target)]
      activeTabIndex := s.tabs.length } ∨
    ∃ index existing, s.tabs[index]? = some existing ∧
      s.reattached target id fresh = { s.setTab index { existing with
          root := existing.root.insertingAtRoot target .horizontal false fresh
          activePane := some target
          zoomedPane := none } with
        detached := s.detached.filter fun entry => entry.pane ≠ target
        activeTabIndex := index } := by
  unfold Session.reattached
  simp only
  cases hindex : ((s.detached.find? fun entry => entry.pane = target).bind
      DetachedPane.originTab).bind (Session.tabIndexOf
        { s with detached := s.detached.filter fun entry => entry.pane ≠ target }) with
  | none => exact .inl rfl
  | some index =>
    cases ht : s.tabs[index]? with
    | none => exact .inl (by simp [ht])
    | some existing =>
      simp only [Option.bind_eq_bind, Option.bind_some, ht]
      split
      · exact .inr ⟨index, existing, ht, rfl⟩
      · exact .inl rfl

theorem reattached_edit (hdetached : s.isDetached target = true)
    (id : TabId) : s.Edit shown [] [id] (s.reattached target id fresh) := by
  have hone : 0 < s.detachedIds.count target := by
    obtain ⟨entry, hentry, heq⟩ := List.any_eq_true.mp hdetached
    exact List.count_pos_iff.mpr (List.mem_map.mpr ⟨entry, hentry, by simpa using heq⟩)
  have hlist := count_undetached s target
  have hown : s.Edit shown [] [id] { s with
      detached := s.detached.filter fun entry => entry.pane ≠ target
      tabs := s.tabs ++ [.new id (.leaf target)]
      activeTabIndex := s.tabs.length } := by
    refine { id := rfl, derived := Derived.refl.append (.new id target), placed := fun _ _ p => ?_,
             tabIds := fun _ t => ?_, peopled := fun _ => by simp, indexed := fun _ => by simp }
    · have hnew : (Tab.new id (.leaf target)).allPaneIds = [target] := rfl
      have hcount := hlist p
      simp only [Session.count_placed, List.count_append, List.flatMap_append, List.flatMap_cons,
        List.flatMap_nil, hnew, List.append_nil, List.count_cons, List.count_nil] at hcount ⊢
      simp only [Session.detachedIds] at hcount hone ⊢
      by_cases hp : p = target
      · grind
      · grind
    · have hnew : (Tab.new id (.leaf target)).id = id := rfl
      simp only [Session.tabIds, List.flatMap_append, List.flatMap_cons, List.flatMap_nil, hnew,
        List.append_nil, List.count_append]
      omega
  rcases reattached_cases s target id fresh with heq | ⟨index, existing, ht, heq⟩
  · rw [heq]
    exact hown
  · -- docked back in the tab it came from
    obtain ⟨hlt, -⟩ := List.getElem?_eq_some_iff.mp ht
    have hset : s.Edit shown [target] [id] (s.setTab index { existing with
        root := existing.root.insertingAtRoot target .horizontal false fresh
        activePane := some target
        zoomedPane := none }) :=
      .setTab ht (.grown (fun p => SplitNode.mem_insertingAtRoot _ p) SplitNode.insertingAtRoot_shaped)
        rfl fun _ p => (SplitNode.count_insertingAtRoot _ p).le
    rw [heq]
    refine { id := rfl, derived := hset.derived, placed := fun hnodup hunique p => ?_,
             tabIds := hset.tabIds, peopled := hset.peopled,
             indexed := fun _ => by simpa [Session.setTab] using hlt }
    have hgrown := hset.placed hnodup hunique p
    have hcount := hlist p
    simp only [Session.count_placed, List.count_append, List.count_cons, List.count_nil] at hgrown ⊢
    simp only [Session.setTab, Session.detachedIds] at hgrown hcount hone ⊢
    by_cases hp : p = target
    · grind
    · grind

theorem reattachPane_edit (target : PaneId) (id : TabId) :
    ws.Edit shown [] [id] (reattachPane ws target id ids).1 := by
  unfold reattachPane
  cases hown : detachedOwner ws target with
  | none => exact .refl
  | some index =>
    obtain ⟨found, hfound, hkind⟩ := Option.bind_eq_some_iff.mp hown
    obtain ⟨pre, s, post, hcut, rfl, hdetached, -⟩ := Position.of_findIdx? hfound
    have hs : ws.sessions[pre.length]? = some s := by simp [hcut]
    have hindex : pre.length = index := by
      grind
    subst hindex
    simp only [hs]
    exact (reattached_edit hdetached id).setActive hs

theorem mintDetachedPane_edit (spec : PaneSpec) (pane : PaneId) :
    ws.Edit shown [pane] tabs (mintDetachedPane ws spec pane) := by
  unfold mintDetachedPane
  split
  · exact .refl
  · refine editingSession_edit fun s s' _ hedit => ?_
    obtain ⟨origin, -, rfl⟩ := Option.map_eq_some_iff.mp hedit
    refine { id := rfl, derived := .refl, placed := fun _ _ p => ?_, tabIds := fun _ id => ?_,
             peopled := fun h => h, indexed := fun h => h }
    · simp only [Session.count_placed, List.count_append, Session.detachedIds, List.map_append,
        List.map_cons, List.map_nil]
      omega
    · simp only [Session.tabIds, List.count_append]
      omega

theorem closeDetachedPane_edit (target : PaneId) :
    ws.Edit shown panes tabs (closeDetachedPane ws target) := by
  unfold closeDetachedPane
  split
  · exact .refl
  · refine editingSession_edit fun s s' _ hedit => ?_
    obtain rfl := Option.some.inj hedit
    refine { id := rfl, derived := .refl, placed := fun _ _ p => ?_, tabIds := fun _ id => ?_,
             peopled := fun h => h, indexed := fun h => h }
    · have hcount := count_undetached s target p
      simp only [Session.count_placed, List.count_append]
      simp only [Session.detachedIds] at hcount ⊢
      split at hcount <;> omega
    · simp only [Session.tabIds, List.count_append]
      omega

theorem breakPaneToTab_edit (target : PaneId) (id : TabId) :
    ws.Edit shown [] [id] (breakPaneToTab ws target id) := by
  unfold breakPaneToTab
  cases hbreak : breakPaneToTab? ws target id with
  | none => exact .refl
  | some ws' =>
    obtain ⟨⟨si, ti⟩, hloc, hrest⟩ := Option.bind_eq_some_iff.mp hbreak
    obtain ⟨s, tab, hs, ht, hmem⟩ := locate_spec hloc
    simp only [hs, ht, Option.bind_eq_bind, Option.bind_some] at hrest
    split at hrest
    · cases hrest
    · obtain ⟨root, hr, hset⟩ := Option.bind_eq_some_iff.mp hrest
      obtain rfl := Option.some.inj hset
      have hone := List.count_pos_iff.mpr hmem
      have hnew : (Tab.new id (.leaf target)).allPaneIds = [target] := rfl
      refine Session.Edit.setSession hs
        { id := rfl, derived := ?_, placed := fun _ _ p => ?_, tabIds := fun _ t => ?_,
          peopled := fun _ => by simp, indexed := fun _ => by simp }
      · exact (Derived.set (.step (List.mem_of_getElem? ht) (pruned_step hr (by simp)))).append
          (.new id target)
      · have hcount := Position.count_set Tab.allPaneIds p (y := tab.pruned target root none) ht
        have hremoved : (tab.pruned target root none).allPaneIds.count p =
            if p = target then 0 else tab.allPaneIds.count p := SplitNode.count_removing hr p
        simp only [Session.count_placed, List.flatMap_append, List.flatMap_cons, List.flatMap_nil, hnew,
          List.append_nil, List.count_append, List.count_cons, List.count_nil]
        simp only [Session.detachedIds]
        by_cases hp : p = target
        · grind
        · grind
      · have hcount := Position.count_set (fun tab : Tab => [tab.id]) t (y := tab.pruned target root none) ht
        have hid : (tab.pruned target root none).id = tab.id := rfl
        have hnewId : (Tab.new id (.leaf target)).id = id := rfl
        simp only [Session.tabIds, List.flatMap_append, List.flatMap_cons, List.flatMap_nil, hnewId,
          List.append_nil, List.count_append]
        rw [hid] at hcount
        omega

/-! ## §7 Sessions -/

theorem insertSession_edit (name : String) (tab : TabId) (pane : PaneId) (spec : PaneSpec) :
    ws.Edit shown [pane] [tab] (insertSession ws (.singlePane session name tab pane spec) true) := by
  have hpane : (Session.singlePane session name tab pane spec).placed = [pane] := rfl
  have htab : (Session.singlePane session name tab pane spec).tabIds = [tab] := rfl
  have htabs : (insertSession ws (.singlePane session name tab pane spec) true).tabs =
      ws.tabs ++ [.new tab (.leaf pane)] := by
    simp [insertSession, TreeWorkspace.tabs, Session.singlePane]
  have hmem : ∀ s ∈ (insertSession ws (.singlePane session name tab pane spec) true).sessions,
      s ∈ ws.sessions ∨ s = .singlePane session name tab pane spec := fun s hs => by
    simpa [insertSession] using hs
  refine { derived := ?_, placed := fun _ p => ?_, tabIds := fun _ id => ?_, peopled := fun h s hs => ?_,
           indexed := fun h s hs => ?_, named := fun _ => ?_ }
  · rw [htabs]
    exact Derived.refl.append (.new tab pane)
  · simp only [insertSession, TreeWorkspace.placed, List.flatMap_append, List.flatMap_cons,
      List.flatMap_nil, hpane, List.append_nil, List.count_append]
    omega
  · simp only [insertSession, TreeWorkspace.tabIds, List.flatMap_append, List.flatMap_cons,
      List.flatMap_nil, htab, List.append_nil, List.count_append]
    omega
  · rcases hmem s hs with hold | rfl
    · exact h s hold
    · simp [Session.singlePane]
  · rcases hmem s hs with hold | rfl
    · exact h s hold
    · simp [Session.singlePane]
  · exact ⟨.singlePane session name tab pane spec, by simp [insertSession], rfl⟩

theorem closeSession_edit : ws.Edit shown [ids.pane.1] [ids.tab.1] (closeSession ws session ids) := by
  unfold closeSession
  cases hfind : ws.sessionIndexOf session with
  | none => exact .refl
  | some index =>
    obtain ⟨pre, s, post, hcut, rfl, -⟩ := Position.of_findIdx? hfind
    have hs : ws.sessions[pre.length]? = some s := by simp [hcut]
    simp only
    split
    · exact defaultWorkspace_edit _ _ _
    · rename_i hne
      exact (erased_moves hs).normalized _ erased_peopled (by simpa using hne)

theorem selectSession_edit : ws.Edit shown panes tabs (selectSession ws session) := by
  unfold selectSession
  split
  · rename_i hany
    obtain ⟨s, hs, hid⟩ := List.any_eq_true.mp hany
    exact .activate rfl ⟨s, hs, by simpa [eq_comm] using hid⟩
  · exact .refl

theorem respecified_edit {name : String} :
    s.Edit shown panes tabs { s with name := name, specs := specs } where
  id := rfl
  derived := .refl
  placed _ _ p := by
    simp only [Session.count_placed, List.count_append, Session.detachedIds]
    omega
  tabIds _ id := by
    simp only [Session.tabIds, List.count_append]
    omega
  peopled h := h
  indexed h := h

theorem renameSession_edit (name : String) : ws.Edit shown panes tabs (renameSession ws session name) := by
  unfold renameSession
  split
  · exact .refl
  · refine editingSession_edit fun s s' _ hedit => ?_
    obtain rfl := Option.some.inj hedit
    exact respecified_edit

theorem updatingSpec_edit (target : PaneId) (transform : PaneSpec → PaneSpec) :
    ws.Edit shown panes tabs (updatingSpec ws target transform) := by
  unfold updatingSpec
  split
  · exact .refl
  · refine editingSession_edit fun s s' _ hedit => ?_
    obtain ⟨spec, -, rfl⟩ := Option.map_eq_some_iff.mp hedit
    exact respecified_edit

end SlopDesk.Tree
