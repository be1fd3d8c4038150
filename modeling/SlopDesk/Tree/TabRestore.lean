/-
SlopDesk.Tree.TabRestore — a tab taken out of its session and put back
(`close_tab` and `insert_tab` in `slopdesk-tree/src/tree_ops.rs`).

A close erases the specs of the panes it takes and ends in the repair of the
whole workspace; an insert writes the specs it is given and ends in the
repair of the specs. On sessions at rest, which are those the repairs leave
as they are, the insert undoes what the close did.
-/
import Mathlib.Data.List.Perm.Basic
import SlopDesk.Tree.TreeOpsTheorems

namespace SlopDesk.Tree

open SlopDesk.Base

variable {ws : TreeWorkspace} {s s' : Session} {tab : Tab} {i j k : Nat}
variable {specs : BTreeMap PaneId PaneSpec}

/-! ## Repairs with nothing to do -/

namespace Session

/-- The specs are those of the panes, no pane is detached twice, and none
is a leaf as well. -/
structure Tabulated (s : Session) : Prop where
  specified : ∀ p, p ∈ s.specs ↔ p ∈ s.allPaneIds ∨ p ∈ s.detachedIds
  detached : s.detachedIds.Nodup
  apart : ∀ p ∈ s.detachedIds, p ∉ s.allPaneIds

/-- A session the repairs have nothing to do on: its active index is of a
tab, too, and no tab has a focus or a zoom to replace. -/
structure Resting (s : Session) : Prop extends s.Tabulated where
  indexed : s.activeTabIndex < s.tabs.length
  selected : ∀ tab ∈ s.tabs, tab.reselected = tab

end Session

/-- Detached panes that have a spec, are no leaves and are all different
stay. -/
theorem retainDetached_kept {leaves : List PaneId}
    {seen : List PaneId} {detached : List DetachedPane} (hnodup : (detached.map DetachedPane.pane).Nodup)
    (hkept : ∀ p ∈ detached.map DetachedPane.pane, p ∉ leaves ∧ p ∈ specs ∧ p ∉ seen) :
    Session.retainDetached leaves specs seen detached = detached := by
  induction detached generalizing seen with
  | nil => rfl
  | cons entry rest ih =>
    obtain ⟨hnew, hrest⟩ := List.nodup_cons.mp hnodup
    obtain ⟨hleaf, hspec, hseen⟩ := hkept entry.pane List.mem_cons_self
    rw [Session.retainDetached, if_pos (by simp [hleaf, hspec, hseen])]
    refine congrArg (entry :: ·) (ih hrest fun p hp => ?_)
    obtain ⟨hleaf, hspec, hseen⟩ := hkept p (List.mem_cons_of_mem _ hp)
    refine ⟨hleaf, hspec, fun hin => ?_⟩
    rcases List.mem_cons.mp hin with rfl | hin
    · exact hnew hp
    · exact hseen hin

theorem lookup_insertIfNew (leaves : List PaneId) (specs : BTreeMap PaneId PaneSpec) (p : PaneId) :
    (leaves.foldl (fun specs id => specs.insertIfNew id .seeded) specs)[p]? =
      if p ∈ leaves then some (specs[p]?.getD .seeded) else specs[p]? := by
  induction leaves generalizing specs with
  | nil => simp
  | cons leaf rest ih =>
    have hone : (specs.insertIfNew leaf .seeded)[p]? =
        if p = leaf then some (specs[p]?.getD .seeded) else specs[p]? := by
      simp only [Std.ExtTreeMap.getElem?_insertIfNew, Std.LawfulEqCmp.compare_eq_iff_eq]
      by_cases heq : p = leaf
      · grind
      · simp [heq, Ne.symm heq]
    rw [List.foldl_cons, ih, hone]
    by_cases heq : p = leaf
    · simp [heq]
    · simp [heq]

/-- The detached panes the repair of the specs keeps all of. -/
def Session.KeepsDetached (s : Session) : Prop :=
  s.detachedIds.Nodup ∧ ∀ p ∈ s.detachedIds, p ∉ s.allPaneIds ∧ p ∈ s.specs

theorem normalizingSpecs_detached (h : s.KeepsDetached) : s.normalizingSpecs.detached = s.detached :=
  retainDetached_kept h.1 fun p hp => ⟨(h.2 p hp).1, (h.2 p hp).2, List.not_mem_nil⟩

theorem lookup_normalizingSpecs (h : s.KeepsDetached) (p : PaneId) : s.normalizingSpecs.specs[p]? =
      if p ∈ s.allPaneIds then some (s.specs[p]?.getD .seeded)
      else if p ∈ s.detachedIds then s.specs[p]? else none := by
  have hdetached : Session.retainDetached s.allPaneIds s.specs [] s.detached = s.detached :=
    normalizingSpecs_detached h
  rw [Session.normalizingSpecs]
  simp only [hdetached, lookup_insertIfNew, Std.ExtTreeMap.getElem?_filter']
  by_cases hleaf : p ∈ s.allPaneIds
  · cases s.specs[p]? <;> simp [hleaf, Option.filter]
  · cases s.specs[p]? <;> simp [hleaf, Option.filter, Session.detachedIds]

/-- The repair of the specs, where the table has the right spec for every
pane there is. -/
theorem normalizingSpecs_eq (h : s.Tabulated) (hspecs : ∀ p ∈ s.specs, specs[p]? = s.specs[p]?) :
    ({ s with specs := specs } : Session).normalizingSpecs = s := by
  have hkeeps : ({ s with specs := specs } : Session).KeepsDetached := by
    refine ⟨h.detached, fun p hp => ⟨h.apart p hp, ?_⟩⟩
    have hold : p ∈ s.specs := (h.specified p).mpr (.inr hp)
    rw [Std.ExtTreeMap.mem_iff_isSome_getElem?, hspecs p hold, ← Std.ExtTreeMap.mem_iff_isSome_getElem?]
    exact hold
  have htable : ({ s with specs := specs } : Session).normalizingSpecs.specs = s.specs := by
    refine Std.ExtTreeMap.ext_getElem? fun p => ?_
    rw [lookup_normalizingSpecs hkeeps]
    change (if p ∈ s.allPaneIds then some (specs[p]?.getD .seeded)
      else if p ∈ s.detachedIds then specs[p]? else none) = s.specs[p]?
    by_cases hmem : p ∈ s.specs
    · obtain ⟨spec, hspec⟩ := Option.isSome_iff_exists.mp (Std.ExtTreeMap.mem_iff_isSome_getElem?.mp hmem)
      rw [hspecs p hmem, hspec]
      rcases (h.specified p).mp hmem with hleaf | hdetached
      · simp [hleaf]
      · simp [hdetached]
    · have hnot := (h.specified p).not.mp hmem
      rw [if_neg fun hleaf => hnot (.inl hleaf), if_neg fun hdetached => hnot (.inr hdetached),
        Std.ExtTreeMap.getElem?_eq_none hmem]
  have hdetached := normalizingSpecs_detached hkeeps
  obtain ⟨id, name, tabs, active, table, detached⟩ := s
  exact congrArg₂ (fun specs detached => (⟨id, name, tabs, active, specs, detached⟩ : Session))
    htable hdetached

theorem Session.Resting.repaired (h : s.Resting) : s.repaired = s := by
  have hspecs : s.normalizingSpecs = s := normalizingSpecs_eq h.toTabulated fun _ _ => rfl
  have htabs : s.tabs.map Tab.reselected = s.tabs :=
    (List.map_congr_left h.selected).trans (List.map_id _)
  have hindex : ¬ s.activeTabIndex ≥ s.tabs.length := Nat.not_le.mpr h.indexed
  rw [Session.repaired, hspecs, Session.reselected, htabs, if_neg hindex]

/-! ## A tab taken out -/

/-- A session that has had a tab taken out, at the end of the close. -/
structure Session.Without (s : Session) (j : Nat) (tab : Tab) (s' : Session) : Prop where
  id : s'.id = s.id
  name : s'.name = s.name
  tabs : s'.tabs = s.tabs.eraseIdx j
  detached : s'.detached = s.detached
  specs : ∀ p, p ∉ tab.allPaneIds → s'.specs[p]? = s.specs[p]?

/-- A session without one of its tabs, before the repair. -/
def Session.closing (s : Session) (j : Nat) (tab : Tab) (active : Nat) : Session :=
  { s with
    specs := tab.allPaneIds.foldl (fun specs id => specs.erase id) s.specs
    tabs := s.tabs.eraseIdx j
    activeTabIndex := active }

theorem mem_closing (ht : s.tabs[j]? = some tab) (active : Nat) {p : PaneId} (hp : p ∉ tab.allPaneIds) :
    p ∈ (s.closing j tab active).allPaneIds ↔ p ∈ s.allPaneIds := by
  obtain ⟨pre, post, htabs, rfl⟩ := Position.of_getElem? ht
  simp [Session.closing, Session.allPaneIds, htabs, hp]

theorem closing_without (h : s.Resting) (ht : s.tabs[j]? = some tab) (active : Nat) :
    s.Without j tab (s.closing j tab active).repaired := by
  have htaken : ∀ p ∈ tab.allPaneIds, p ∈ s.allPaneIds := fun p hp =>
    List.mem_flatMap.mpr ⟨tab, List.mem_of_getElem? ht, hp⟩
  have hleft : ∀ p ∈ (s.closing j tab active).allPaneIds, p ∈ s.allPaneIds := by
    intro p hp
    obtain ⟨x, hx, hmem⟩ := List.mem_flatMap.mp hp
    exact List.mem_flatMap.mpr ⟨x, List.mem_of_mem_eraseIdx hx, hmem⟩
  have hspecs : ∀ p, p ∉ tab.allPaneIds → (s.closing j tab active).specs[p]? = s.specs[p]? := by
    intro p hp
    rw [Session.closing, BTreeMap.lookup_foldl_erase, if_neg hp]
  have hkeeps : (s.closing j tab active).KeepsDetached := by
    refine ⟨h.detached, fun p hp => ⟨fun hin => h.apart p hp (hleft p hin), ?_⟩⟩
    rw [Std.ExtTreeMap.mem_iff_isSome_getElem?, hspecs p fun hin => h.apart p hp (htaken p hin),
      ← Std.ExtTreeMap.mem_iff_isSome_getElem?]
    exact (h.specified p).mpr (.inr hp)
  have htabs : (s.tabs.eraseIdx j).map Tab.reselected = s.tabs.eraseIdx j :=
    (List.map_congr_left fun x hx => h.selected x (List.mem_of_mem_eraseIdx hx)).trans (List.map_id _)
  refine ⟨rfl, rfl, htabs, normalizingSpecs_detached hkeeps, fun p hp => ?_⟩
  have hlookup := lookup_normalizingSpecs hkeeps p
  have hsame : (s.closing j tab active).detachedIds = s.detachedIds := rfl
  rw [hspecs p hp, hsame] at hlookup
  refine hlookup.trans ?_
  by_cases hmem : p ∈ s.specs
  · obtain ⟨spec, hspec⟩ := Option.isSome_iff_exists.mp (Std.ExtTreeMap.mem_iff_isSome_getElem?.mp hmem)
    rw [hspec]
    rcases (h.specified p).mp hmem with hleaf | hdetached
    · rw [if_pos ((mem_closing ht active hp).mpr hleaf), Option.getD_some]
    · rw [if_neg fun hin => h.apart p hdetached (hleft p hin), if_pos hdetached]
  · have hnot := (h.specified p).not.mp hmem
    rw [if_neg fun hin => hnot (.inl (hleft p hin)), if_neg fun hdetached => hnot (.inr hdetached),
      Std.ExtTreeMap.getElem?_eq_none hmem]

/-- A tab that closes in a session that keeps another one: its session has
it taken out, and the other sessions are as they were. -/
theorem closeTab_sessions {id : TabId} (successor : Option TabId) (ids : IdSource)
    (hrest : ∀ x ∈ ws.sessions, x.Resting) (hloc : locateTab ws id = some (i, j))
    (hs : ws.sessions[i]? = some s) (ht : s.tabs[j]? = some tab) (hkeeps : 2 ≤ s.tabs.length) :
    ∃ s', s.Without j tab s' ∧ (closeTab ws id successor ids).sessions = ws.sessions.set i s' := by
  obtain ⟨pre, post, hcut, rfl⟩ := Position.of_getElem? hs
  obtain ⟨hj, -⟩ := List.getElem?_eq_some_iff.mp ht
  have hleft : s.tabs.eraseIdx j ≠ [] := by
    grind [List.length_eraseIdx_of_lt]
  let active := (successor.bind (s.closing j tab s.activeTabIndex).tabIndexOf).getD
    (min j ((s.tabs.eraseIdx j).length - 1))
  have hclose : closeTab ws id successor ids =
      ((⟨pre ++ s.closing j tab active :: post, ws.activeSessionId⟩ : TreeWorkspace).normalized ids).1 := by
    have hcascade : cascadeAfterTabRemoval
        (ws.setSession pre.length (s.closing j tab s.activeTabIndex)) pre.length j successor ids =
        (⟨pre ++ s.closing j tab active :: post, ws.activeSessionId⟩, ids) := by
      simp [cascadeAfterTabRemoval, TreeWorkspace.setSession, hcut, Session.closing, hleft, active]
    simp only [Session.closing] at hcascade
    simp [closeTab, closeTab?, hloc, hs, ht, hcascade, Session.closing]
  have hrepaired : ∀ l : List Session, (∀ x ∈ l, x ∈ ws.sessions) → l.map Session.repaired = l :=
    fun l hl => (List.map_congr_left fun x hx => (hrest x (hl x hx)).repaired).trans (List.map_id _)
  have hpre : pre.map Session.repaired = pre := hrepaired pre fun x hx => by simp [hcut, hx]
  have hpost : post.map Session.repaired = post := hrepaired post fun x hx => by simp [hcut, hx]
  have hpeopled : ∀ x ∈ ws.sessions, x.tabs ≠ [] := fun x hx =>
    List.ne_nil_of_length_pos (Nat.zero_lt_of_lt (hrest x hx).indexed)
  have hseeded : ((s.closing j tab active).normalizingSpecs.seeded ids).1 =
      (s.closing j tab active).normalizingSpecs := by
    have htabs : (s.closing j tab active).normalizingSpecs.tabs ≠ [] := hleft
    simp [Session.seeded, htabs]
  refine ⟨(s.closing j tab active).repaired, closing_without (hrest s (by simp [hcut])) ht active, ?_⟩
  rw [hclose, normalized_cut _ ids _ (fun x hx => hpeopled x (by simp [hcut, hx]))
    fun x hx => hpeopled x (by simp [hcut, hx]), hpre, hpost, hseeded, hcut, Position.set_cut]
  rfl

/-! ## And put back -/

theorem lookup_insertSpecs (into supplied : BTreeMap PaneId PaneSpec) (panes : List PaneId) (p : PaneId) :
    (insertSpecs into supplied panes)[p]? =
      if p ∈ panes then supplied[p]?.or into[p]? else into[p]? := by
  rw [insertSpecs]
  induction panes generalizing into with
  | nil => simp
  | cons pane rest ih =>
    rw [List.foldl_cons, ih]
    cases hspec : supplied[pane]? with
    | none =>
      grind
    | some spec =>
      simp only [BTreeMap.lookup_insert]
      by_cases heq : p = pane
      · subst heq
        simp [hspec]
      · simp [heq]

/-- The tab put back with the specs its panes had: the session is as it
was, but for where the tab stands and that it is the one selected. -/
theorem Session.Without.received (h : s.Without j tab s') (hrest : s.Resting) (ht : s.tabs[j]? = some tab)
    (hspecs : ∀ p ∈ tab.allPaneIds, specs[p]? = s.specs[p]?) (position : NewTabPosition) :
    (s'.received tab specs position).normalizingSpecs =
      { s with
        tabs := (s.tabs.eraseIdx j).insertIdx (s'.newTabIndex position) tab
        activeTabIndex := s'.newTabIndex position } := by
  obtain ⟨hj, rfl⟩ := List.getElem?_eq_some_iff.mp ht
  have hindex : s'.newTabIndex position ≤ (s.tabs.eraseIdx j).length := by
    rw [← h.tabs]
    exact newTabIndex_le s' position
  let restored : Session := { s with
    tabs := (s.tabs.eraseIdx j).insertIdx (s'.newTabIndex position) s.tabs[j]
    activeTabIndex := s'.newTabIndex position }
  have hpanes : restored.allPaneIds.Perm s.allPaneIds :=
    ((List.perm_insertIdx _ _ hindex).trans (List.getElem_cons_eraseIdx_perm hj)).flatMap_right _
  have htabulated : restored.Tabulated :=
    { specified := fun p => (hrest.specified p).trans (or_congr_left hpanes.mem_iff.symm)
      detached := hrest.detached
      apart := fun p hp hin => hrest.apart p hp (hpanes.mem_iff.mp hin) }
  have htable : ∀ p ∈ s.specs,
      (insertSpecs s'.specs specs s.tabs[j].allPaneIds)[p]? = s.specs[p]? := by
    intro p hp
    obtain ⟨spec, hspec⟩ := Option.isSome_iff_exists.mp (Std.ExtTreeMap.mem_iff_isSome_getElem?.mp hp)
    rw [lookup_insertSpecs]
    split
    · rename_i hin
      rw [hspecs p hin, hspec, Option.some_or]
    · rename_i hout
      exact h.specs p hout
  have heq : s'.received s.tabs[j] specs position =
      { restored with specs := insertSpecs s'.specs specs s.tabs[j].allPaneIds } := by
    obtain ⟨id, name, tabs, active, table, detached⟩ := s'
    obtain ⟨rfl, rfl, rfl, rfl, -⟩ := h
    rfl
  rw [heq]
  exact normalizingSpecs_eq htabulated htable

end SlopDesk.Tree
