/-
SlopDesk.Tree.Seams — tiles and seams come from one partition.

§1 what the fixed children take and what the flex children share add up. §2
the rectangles of a split touch, and a seam lies where two of them do. §3 a
drag moves a seam by as much as the budget of the split is of its span.
-/
import Mathlib.Algebra.BigOperators.Ring.List
import Mathlib.Algebra.Order.BigOperators.Group.List
import Mathlib.Tactic.FieldSimp
import Mathlib.Tactic.Linarith
import SlopDesk.Base.Position
import SlopDesk.Tree.ExactLayout

set_option linter.unusedSectionVars false

namespace SlopDesk.Tree.Exact

open SlopDesk.Base

variable {K : Type} [Field K] [LinearOrder K] [IsStrictOrderedRing K]
variable {children : List (WeightedChild K)} {total used : K}

/-! ## §1 The sum of the lengths -/

/-- No fixed child takes any length. -/
def NoBands (children : List (WeightedChild K)) : Prop := ∀ child ∈ children, ∀ points, child.1 = .fixed points → points ≤ 0

theorem usedAfter_bounds (h : used ≤ max total 0) :
    used ≤ usedAfter total used children ∧ usedAfter total used children ≤ max total 0 := by
  induction children generalizing used with
  | nil => exact ⟨le_refl _, h⟩
  | cons child rest ih =>
    obtain ⟨weight, node⟩ := child
    cases weight with
    | flex w => exact ih h
    | fixed points =>
      have hextent : 0 ≤ min (max points 0) (max (total - used) 0) := le_min (le_max_right _ _) (le_max_right _ _)
      have hle : min (max points 0) (max (total - used) 0) ≤ max (total - used) 0 := min_le_right _ _
      have hfits : used + min (max points 0) (max (total - used) 0) ≤ max total 0 := by
        rcases le_total total used with htotal | htotal
        · rw [max_eq_right (sub_nonpos.mpr htotal)] at hle ⊢
          linarith
        · rw [max_eq_left (sub_nonneg.mpr htotal)] at hle ⊢
          exact le_trans (by linarith) (le_max_left total 0)
      obtain ⟨hmore, hrest⟩ := ih hfits
      exact ⟨by rw [usedAfter]; linarith, hrest⟩

/-- The fixed children take nothing exactly when none asks for anything. -/
theorem usedAfter_eq_iff (h : used < total) : usedAfter total used children = used ↔ NoBands children := by
  induction children with
  | nil => simp [usedAfter, NoBands]
  | cons child rest ih =>
    obtain ⟨weight, node⟩ := child
    have hsplit : NoBands ((weight, node) :: rest) ↔ (∀ points, weight = .fixed points → points ≤ 0) ∧ NoBands rest :=
      List.forall_mem_cons
    rw [hsplit]
    cases weight with
    | flex w => simpa [usedAfter] using ih
    | fixed points =>
      simp only [SplitWeight.fixed.injEq, forall_eq', usedAfter]
      rcases le_or_gt points 0 with hnone | hsome
      · rw [max_eq_right hnone, min_eq_left (le_max_right _ _), add_zero, ih]
        simp [hnone]
      · have hextent : 0 < min (max points 0) (max (total - used) 0) :=
          lt_min (lt_max_of_lt_left hsome) (lt_max_of_lt_left (sub_pos.mpr h))
        have hfits : used + min (max points 0) (max (total - used) 0) ≤ max total 0 := by
          have hle : min (max points 0) (max (total - used) 0) ≤ max (total - used) 0 := min_le_right _ _
          rw [max_eq_left (sub_nonneg.mpr h.le)] at hle ⊢
          exact le_trans (by linarith) (le_max_left total 0)
        have hmore : _ ≤ usedAfter total _ rest := (usedAfter_bounds hfits).1
        constructor
        · intro heq
          linarith
        · intro hno
          linarith [hno.1]

theorem budget_eq_iff (h : 0 < total) : budget children total = total ↔ NoBands children := by
  obtain ⟨hge, hle⟩ : _ ≤ usedAfter total 0 children ∧ _ := usedAfter_bounds (le_max_right total 0)
  rw [max_eq_left h.le] at hle
  rw [← usedAfter_eq_iff h, budget, max_eq_left (sub_nonneg.mpr hle)]
  constructor <;> intro heq <;> linarith

theorem share_nonneg (w : K) : 0 ≤ share children total w := by
  have hbudget : 0 ≤ budget children total := budget_nonneg
  rw [share]
  split
  · exact div_nonneg (mul_nonneg hbudget (le_max_right _ _)) (le_of_lt ‹_›)
  · split
    · exact div_nonneg hbudget (Nat.cast_nonneg _)
    · exact le_refl _

/-- The flex children share all of the budget. -/
theorem share_sum (h : children.filterMap (fun child => child.1.flexShare) ≠ []) :
    ((children.filterMap fun child => child.1.flexShare).map (share children total)).sum = budget children total := by
  by_cases hsum : 0 < (flexWeights children).sum
  · have hshare : share children total = fun w => budget children total / (flexWeights children).sum * max w 0 := by
      funext w
      rw [share, if_pos hsum]
      ring
    rw [hshare, List.sum_map_mul_left]
    exact div_mul_cancel₀ _ hsum.ne'
  · have hcount : 0 < (flexWeights children).length := by
      rw [flexWeights, List.length_map]
      exact List.length_pos_iff.mpr h
    have hshare : share children total = fun _ => budget children total / (flexWeights children).length := by
      funext w
      rw [share, if_neg hsum, if_pos hcount]
    have hlength : (children.filterMap fun child => child.1.flexShare).length = (flexWeights children).length := by
      rw [flexWeights, List.length_map]
    rw [hshare, List.map_const', List.sum_replicate, hlength, nsmul_eq_mul]
    exact mul_div_cancel₀ _ (Nat.cast_pos.mpr hcount).ne'

theorem extents_sum (htotal : 0 ≤ total) (h : children.filterMap (fun child => child.1.flexShare) ≠ []) :
    (extents children total).sum = total := by
  obtain ⟨_, hle⟩ : _ ≤ usedAfter total 0 children ∧ _ := usedAfter_bounds (le_max_right total 0)
  rw [max_eq_left htotal] at hle
  rw [extents_eq, lengthsFrom_sum, share_sum h, budget, max_eq_left (sub_nonneg.mpr hle)]
  ring

theorem extents_nonneg : ∀ extent ∈ extents children total, 0 ≤ extent := by
  rw [extents_eq]
  exact lengthsFrom_nonneg share_nonneg total 0 children

/-! ## §2 Tiles -/

mutual

theorem splits_proper {rect : Rect K} (h : Proper rect) :
    ∀ node : SplitNode K, ∀ s ∈ splits rect node, Proper s.rect
  | .leaf _ => by simp [splits]
  | .split id axis children => by
    rw [splits, List.forall_mem_cons]
    exact ⟨h, splitsAll_proper (proper_childRects h axis extents_nonneg _) children⟩

theorem splitsAll_proper {rects : List (Rect K)} (h : ∀ rect ∈ rects, Proper rect) :
    ∀ children : List (WeightedChild K), ∀ s ∈ splitsAll rects children, Proper s.rect
  | [] => by simp [splitsAll]
  | (_, node) :: children => by
    cases rects with
    | nil => simp [splitsAll]
    | cons rect rects =>
      rw [List.forall_mem_cons] at h
      rw [splitsAll, List.forall_mem_append]
      exact ⟨splits_proper h.1 node, splitsAll_proper h.2 children⟩

end

/-- The children's rectangles, one after the other, are the split's. -/
structure Partitioned (s : PlacedSplit K) : Prop where
  count : s.rects.length = s.children.length
  proper : ∀ rect ∈ s.rects, Proper rect
  first : ∀ rect, s.rects[0]? = some rect → axisOrigin rect s.axis = axisOrigin s.rect s.axis
  touch : ∀ i rect next, s.rects[i]? = some rect → s.rects[i + 1]? = some next →
    trailingEdge rect s.axis = axisOrigin next s.axis
  exact : (∃ child ∈ s.children, ∃ weight, child.1 = .flex weight) →
    (s.rects.map (axisLength · s.axis)).sum = s.span

variable {s : PlacedSplit K} {d : Divider K} {thickness : K}

theorem partitioned (h : Proper s.rect) : Partitioned s := by
  have hspan : 0 ≤ s.span := by
    obtain ⟨id, axis, children, rect⟩ := s
    cases axis
    · exact h.1
    · exact h.2
  refine ⟨?_, proper_childRects h s.axis extents_nonneg _, ?_, ?_, ?_⟩
  · have hlengths := congrArg List.length
      (lengths_childRects s.rect s.axis (axisOrigin s.rect s.axis) (extents s.children s.span))
    rwa [List.length_map, length_extents] at hlengths
  · intro rect hrect
    rw [(rect_at hrect).1]
    simp
  · intro i rect next hrect hnext
    rw [(rect_at hrect).2, (rect_at hnext).1, PlacedSplit.edge]
  · rintro ⟨child, hchild, weight, hweight⟩
    rw [PlacedSplit.rects, lengths_childRects]
    refine extents_sum hspan fun hnone => ?_
    have hmem : weight ∈ s.children.filterMap fun child => child.1.flexShare :=
      List.mem_filterMap.mpr ⟨child, hchild, by rw [hweight]; rfl⟩
    rw [hnone] at hmem
    simp at hmem

/-! ## §3 Seams -/

/-- A divider and the two children it is between. -/
structure Between (s : PlacedSplit K) (thickness : K) (d : Divider K) (leading trailing : WeightedChild K) : Prop where
  here : s.children[d.childIndex]? = some leading
  next : s.children[d.childIndex + 1]? = some trailing
  leadingWeight : d.leadingWeight = leading.1.flexShare.getD 0
  trailingWeight : d.trailingWeight = trailing.1.flexShare.getD 0
  axis : d.axis = s.axis
  span : d.parentSpan = s.span
  flexSum : d.flexSum = dividerFlexSum s.children
  /-- It lies where their rectangles touch. -/
  edge : ∃ rect next, s.rects[d.childIndex]? = some rect ∧ s.rects[d.childIndex + 1]? = some next ∧
    d.rect = handleRect (trailingEdge rect s.axis) s.axis s.rect thickness ∧
    trailingEdge rect s.axis = axisOrigin next s.axis

theorem mem_seamsFrom {id : SplitNodeId} {axis : SplitAxis} {rect : Rect K} {flexSum : K} {index : Nat}
    {children : List (WeightedChild K)} {rects : List (Rect K)}
    (h : d ∈ seamsFrom id axis rect thickness flexSum index children rects) :
    ∃ i leading trailing leadingRect trailingRect, children[i]? = some leading ∧ children[i + 1]? = some trailing ∧
      rects[i]? = some leadingRect ∧ rects[i + 1]? = some trailingRect ∧
      d = ⟨id, index + i, axis, handleRect (trailingEdge leadingRect axis) axis rect thickness, axisLength rect axis,
        flexSum, leading.1.flexShare.getD 0, trailing.1.flexShare.getD 0⟩ := by
  fun_induction seamsFrom id axis rect thickness flexSum index children rects with
  | case1 index leading trailing children leadingRect trailingRect rects ih =>
    rcases List.mem_cons.mp h with rfl | h
    · exact ⟨0, leading, trailing, leadingRect, trailingRect, rfl, rfl, rfl, rfl, rfl⟩
    · obtain ⟨i, l, t, lr, tr, hl, ht, hlr, htr, rfl⟩ := ih h
      exact ⟨i + 1, l, t, lr, tr, hl, ht, hlr, htr, by rw [Nat.add_assoc, Nat.add_comm 1 i]⟩
  | case2 => simp at h

theorem between_of_mem (hs : Partitioned s)
    (h : d ∈ s.seams thickness) : ∃ leading trailing, Between s thickness d leading trailing := by
  obtain ⟨i, leading, trailing, rect, next, hl, ht, hlr, htr, rfl⟩ := mem_seamsFrom h
  have hindex : 0 + i = i := Nat.zero_add i
  refine ⟨leading, trailing, ⟨?_, ?_, rfl, rfl, rfl, rfl, rfl, rect, next, ?_, ?_, rfl, hs.touch i rect next hlr htr⟩⟩
  all_goals
    dsimp only
    rw [hindex]
    assumption

/-! ## §4 Drags -/

/-- Where a drag by `p` points lands, and the children afterwards. -/
def Divider.landed (d : Divider K) (p : K) : K := d.clampedLeadingWeight (d.leadingWeight + d.weightDelta p)

def dragged (s : PlacedSplit K) (d : Divider K) (p : K) : List (WeightedChild K) :=
  reweighed s.children d.childIndex (d.landed p) (d.leadingWeight + d.trailingWeight - d.landed p)

/-- The seam follows the cursor unless the clamp holds it back, and no child
falls below the pixel floor. -/
structure Tracks (s : PlacedSplit K) (d : Divider K) (p : K) : Prop where
  moves : d.landed p = d.leadingWeight + d.weightDelta p →
    s.edge (dragged s d p) d.childIndex = s.edge s.children d.childIndex + p
  floors : ∀ (j : Nat) (before after : K), (extents s.children s.span)[j]? = some before →
    (extents (dragged s d p) s.span)[j]? = some after → minLeaf s.axis ≤ before → minLeaf s.axis ≤ after

/-- Neither side of the seam has room to give. -/
def Frozen (d : Divider K) : Prop := d.leadingWeight ≤ d.floorWeight ∧ d.trailingWeight ≤ d.floorWeight

section

variable {pre post : List (WeightedChild K)} {n m : SplitNode K} {a b lead trail : K}

/-- The children with these weights at the seam. -/
def pair (pre post : List (WeightedChild K)) (n m : SplitNode K) (a b : K) : List (WeightedChild K) :=
  pre ++ (.flex a, n) :: (.flex b, m) :: post

theorem reweighed_pair : reweighed (pair pre post n m lead trail) pre.length a b = pair pre post n m a b := by
  have hbehind : pair pre post n m a trail = (pre ++ [(.flex a, n)]) ++ (.flex trail, m) :: post := by
    simp [pair]
  have hindex : pre.length + 1 = (pre ++ [((.flex a, n) : WeightedChild K)]).length := by simp
  rw [reweighed, pair, Position.modify_cut]
  change (pair pre post n m a trail).modify _ _ = _
  rw [hbehind, hindex, Position.modify_cut]
  simp [pair]

theorem flexWeights_pair : flexWeights (pair pre post n m a b) =
    flexWeights pre ++ max a 0 :: max b 0 :: flexWeights post := by
  simp [flexWeights, pair, SplitWeight.flexShare]

theorem usedAfter_append (xs ys : List (WeightedChild K)) :
    usedAfter total used (xs ++ ys) = usedAfter total (usedAfter total used xs) ys := by
  induction xs generalizing used with
  | nil => rfl
  | cons child rest ih =>
    obtain ⟨weight, node⟩ := child
    cases weight <;> exact ih

theorem lengthsFrom_append (share : K → K) (xs ys : List (WeightedChild K)) :
    lengthsFrom share total used (xs ++ ys) =
      lengthsFrom share total used xs ++ lengthsFrom share total (usedAfter total used xs) ys := by
  induction xs generalizing used with
  | nil => rfl
  | cons child rest ih =>
    obtain ⟨weight, node⟩ := child
    cases weight <;> simp only [List.cons_append, lengthsFrom, usedAfter, ih]

theorem budget_pair : budget (pair pre post n m a b) total = budget (pair pre post n m lead trail) total := by
  simp only [budget, pair, usedAfter_append, usedAfter]

/-- Weights of one sum leave every share as it was. -/
theorem share_pair (ha : 0 ≤ a) (hb : 0 ≤ b) (hlead : 0 ≤ lead) (htrail : 0 ≤ trail) (hsum : a + b = lead + trail) :
    share (pair pre post n m a b) total = share (pair pre post n m lead trail) total := by
  have hsums : (flexWeights (pair pre post n m a b)).sum = (flexWeights (pair pre post n m lead trail)).sum := by
    simp only [flexWeights_pair, List.sum_append, List.sum_cons, max_eq_left ha, max_eq_left hb, max_eq_left hlead,
      max_eq_left htrail]
    linarith
  have hlengths : (flexWeights (pair pre post n m a b)).length =
      (flexWeights (pair pre post n m lead trail)).length := by
    simp [flexWeights_pair]
  funext w
  have hbudget : budget (pair pre post n m a b) total = budget (pair pre post n m lead trail) total := budget_pair
  rw [share, share, hsums, hlengths, hbudget]

/-- What the seam's weights do not reach. -/
theorem extents_pair (ha : 0 ≤ a) (hb : 0 ≤ b) (hlead : 0 ≤ lead) (htrail : 0 ≤ trail)
    (hsum : a + b = lead + trail) : extents (pair pre post n m a b) total =
      lengthsFrom (share (pair pre post n m lead trail) total) total 0 pre ++
        share (pair pre post n m lead trail) total a :: share (pair pre post n m lead trail) total b ::
          lengthsFrom (share (pair pre post n m lead trail) total) total (usedAfter total 0 pre) post := by
  rw [extents_eq, share_pair ha hb hlead htrail hsum]
  change lengthsFrom (share (pair pre post n m lead trail) total) total 0
    (pre ++ (.flex a, n) :: (.flex b, m) :: post) = _
  rw [lengthsFrom_append]
  rfl

theorem edge_pair {s : PlacedSplit K} (ha : 0 ≤ a) (hb : 0 ≤ b) (hlead : 0 ≤ lead) (htrail : 0 ≤ trail)
    (hsum : a + b = lead + trail) : s.edge (pair pre post n m a b) pre.length = axisOrigin s.rect s.axis +
      ((lengthsFrom (share (pair pre post n m lead trail) s.span) s.span 0 pre).sum +
        share (pair pre post n m lead trail) s.span a) := by
  have hlength : (lengthsFrom (share (pair pre post n m lead trail) s.span) s.span 0 pre).length = pre.length :=
    length_lengthsFrom ..
  rw [PlacedSplit.edge, extents_pair ha hb hlead htrail hsum, List.take_append, hlength,
    List.take_of_length_le (by omega), Nat.add_sub_cancel_left]
  simp

end

omit [IsStrictOrderedRing K] in
/-- Lists that differ at one pair of places. -/
theorem floors_pair {floor x y x' y' : K} (hx : floor ≤ x → floor ≤ x') (hy : floor ≤ y → floor ≤ y') (as bs : List K) :
    ∀ (j : Nat) (before after : K), (as ++ x :: y :: bs)[j]? = some before →
      (as ++ x' :: y' :: bs)[j]? = some after → floor ≤ before → floor ≤ after := by
  induction as with
  | nil =>
    intro j before after hbefore hafter hle
    match j with
    | 0 =>
      obtain rfl : x = before := by simpa using hbefore
      obtain rfl : x' = after := by simpa using hafter
      exact hx hle
    | 1 =>
      obtain rfl : y = before := by simpa using hbefore
      obtain rfl : y' = after := by simpa using hafter
      exact hy hle
    | j + 2 =>
      obtain rfl : before = after := Option.some.inj (hbefore.symm.trans hafter)
      exact hle
  | cons first as ih =>
    intro j before after hbefore hafter hle
    cases j with
    | zero =>
      obtain rfl : before = after := Option.some.inj (hbefore.symm.trans hafter)
      exact hle
    | succ j => exact ih j before after hbefore hafter hle

theorem floorWeight_pos (d : Divider K) : 0 < d.floorWeight := by
  have hmin : (0 : K) < minWeight := by
    rw [minWeight]
    norm_num
  exact lt_of_lt_of_le hmin (le_max_right _ _)

/-- The clamp brackets the weight it starts from. -/
theorem clamped_bounds (hspan : 0 < d.parentSpan) (hflex : 0 < d.flexSum) (proposed : K) :
    min d.floorWeight d.leadingWeight ≤ d.clampedLeadingWeight proposed ∧
      d.clampedLeadingWeight proposed ≤
        max (d.leadingWeight + d.trailingWeight - d.floorWeight) d.leadingWeight := by
  rw [Divider.clampedLeadingWeight, if_neg (not_or.mpr ⟨not_le.mpr hspan, not_le.mpr hflex⟩)]
  exact ⟨le_min (le_max_right _ _) ((min_le_right _ _).trans (le_max_right _ _)), min_le_right _ _⟩

theorem clamped_eq {proposed : K} (hspan : 0 < d.parentSpan) (hflex : 0 < d.flexSum)
    (hlower : min d.floorWeight d.leadingWeight ≤ proposed)
    (hupper : proposed ≤ max (d.leadingWeight + d.trailingWeight - d.floorWeight) d.leadingWeight) :
    d.clampedLeadingWeight proposed = proposed := by
  rw [Divider.clampedLeadingWeight, if_neg (not_or.mpr ⟨not_le.mpr hspan, not_le.mpr hflex⟩)]
  dsimp only
  rw [max_eq_left hlower, min_eq_left hupper]

theorem clamped_frozen (hspan : 0 < d.parentSpan) (hflex : 0 < d.flexSum) (h : Frozen d)
    (proposed : K) : d.clampedLeadingWeight proposed = d.leadingWeight := by
  obtain ⟨hlower, hupper⟩ := clamped_bounds hspan hflex proposed
  rw [min_eq_right h.1] at hlower
  rw [max_eq_right (by linarith [h.2])] at hupper
  exact le_antisymm hupper hlower

/-- A divider between two flex children, their weights not negative. -/
structure Flexes (s : PlacedSplit K) (d : Divider K) (pre post : List (WeightedChild K)) (n m : SplitNode K) :
    Prop where
  children : s.children = pair pre post n m d.leadingWeight d.trailingWeight
  index : d.childIndex = pre.length
  axis : d.axis = s.axis
  span : d.parentSpan = s.span
  flexSum : d.flexSum = dividerFlexSum s.children
  leading : 0 ≤ d.leadingWeight
  trailing : 0 ≤ d.trailingWeight

section

variable {s : PlacedSplit K} {d : Divider K} {pre post : List (WeightedChild K)} {n m : SplitNode K} {p : K}

theorem Flexes.dragged_eq (h : Flexes s d pre post n m) (p : K) : dragged s d p =
    pair pre post n m (d.landed p) (d.leadingWeight + d.trailingWeight - d.landed p) := by
  rw [dragged, h.children, h.index, reweighed_pair]

theorem dividerFlexSum_eq (children : List (WeightedChild K)) : dividerFlexSum children =
    if 0 < (flexWeights children).sum then (flexWeights children).sum
    else if 0 < (flexWeights children).length then ((flexWeights children).length : K) else 1 := by
  rw [dividerFlexSum, flexWeights, List.length_map]

theorem dividerFlexSum_pos (children : List (WeightedChild K)) : 0 < dividerFlexSum children := by
  rw [dividerFlexSum_eq]
  split
  · assumption
  · split
    · exact Nat.cast_pos.mpr ‹_›
    · exact one_pos

section

variable (h : Flexes s d pre post n m)
include h

theorem Flexes.flexSum_pos : 0 < d.flexSum := by
  rw [h.flexSum]
  exact dividerFlexSum_pos _

/-- Where a side has room, the weights have a sum. -/
theorem Flexes.sum_pos (hfree : ¬ Frozen d) :
    0 < (flexWeights s.children).sum ∧ d.flexSum = (flexWeights s.children).sum := by
  have hpos := floorWeight_pos d
  have hpair : 0 < d.leadingWeight + d.trailingWeight := by
    rcases not_and_or.mp hfree with hroom | hroom
    · linarith [not_le.mp hroom, h.trailing]
    · linarith [not_le.mp hroom, h.leading]
  have hothers (children : List (WeightedChild K)) : 0 ≤ (flexWeights children).sum :=
    List.sum_nonneg fun w hw => by
      obtain ⟨v, _, rfl⟩ := List.mem_map.mp hw
      exact le_max_right _ _
  have hsum : 0 < (flexWeights s.children).sum := by
    rw [h.children, flexWeights_pair, List.sum_append, List.sum_cons, List.sum_cons, max_eq_left h.leading,
      max_eq_left h.trailing]
    linarith [hothers pre, hothers post]
  exact ⟨hsum, by rw [h.flexSum, dividerFlexSum_eq, if_pos hsum]⟩

/-- A drag leaves both sides what the clamp leaves them. -/
theorem Flexes.landed_bounds (hspan : 0 < d.parentSpan) (p : K) :
    min d.floorWeight d.leadingWeight ≤ d.landed p ∧
      min d.floorWeight d.trailingWeight ≤ d.leadingWeight + d.trailingWeight - d.landed p := by
  obtain ⟨hlower, hupper⟩ := clamped_bounds hspan h.flexSum_pos (d.leadingWeight + d.weightDelta p)
  refine ⟨hlower, ?_⟩
  rcases le_total d.floorWeight d.trailingWeight with hle | hle
  · rw [max_eq_left (by linarith)] at hupper
    rw [min_eq_left hle, Divider.landed]
    linarith
  · rw [max_eq_right (by linarith)] at hupper
    rw [min_eq_right hle, Divider.landed]
    linarith

theorem Flexes.landed_nonneg (hspan : 0 < d.parentSpan) (p : K) :
    0 ≤ d.landed p ∧ 0 ≤ d.leadingWeight + d.trailingWeight - d.landed p := by
  obtain ⟨hlead, htrail⟩ := h.landed_bounds hspan p
  have hpos := (floorWeight_pos d).le
  exact ⟨(le_min hpos h.leading).trans hlead, (le_min hpos h.trailing).trans htrail⟩

theorem Flexes.share_eq (hfree : ¬ Frozen d) {w : K} (hw : 0 ≤ w) :
    share s.children s.span w = budget s.children s.span * w / d.flexSum := by
  obtain ⟨hsum, hflex⟩ := h.sum_pos hfree
  rw [share, if_pos hsum, max_eq_left hw, hflex]

/-- How far a drag moves the seam: by what its weight is of the budget. -/
theorem Flexes.edge_dragged (hspan : 0 < d.parentSpan) (hfree : ¬ Frozen d) (p : K) :
    s.edge (dragged s d p) d.childIndex = s.edge s.children d.childIndex +
      budget s.children s.span * (d.landed p - d.leadingWeight) / d.flexSum := by
  obtain ⟨hlead, htrail⟩ := h.landed_nonneg hspan p
  have hshare := h.share_eq hfree hlead
  have hshare' := h.share_eq hfree h.leading
  rw [h.children] at hshare hshare'
  rw [h.dragged_eq, h.children, h.index, edge_pair hlead htrail h.leading h.trailing (by ring),
    edge_pair h.leading h.trailing h.leading h.trailing rfl, hshare, hshare']
  ring

end

theorem weightDelta_eq (hspan : 0 < d.parentSpan) (hflex : 0 < d.flexSum) (p : K) :
    d.weightDelta p = p / d.parentSpan * d.flexSum := by
  rw [Divider.weightDelta, if_neg (not_or.mpr ⟨not_le.mpr hspan, not_le.mpr hflex⟩)]

theorem Flexes.tracks_frozen (h : Flexes s d pre post n m) (hspan : 0 < d.parentSpan) (hfrozen : Frozen d) (p : K) :
    Tracks s d p := by
  have hlanded : d.landed p = d.leadingWeight := clamped_frozen hspan h.flexSum_pos hfrozen _
  have hsame : dragged s d p = s.children := by
    rw [h.dragged_eq, hlanded, add_sub_cancel_left, ← h.children]
  refine ⟨?_, ?_⟩
  · intro hmoved
    have hdelta : p / d.parentSpan * d.flexSum = 0 := by
      rw [← weightDelta_eq hspan h.flexSum_pos]
      linarith
    have hzero : p = 0 := by
      rcases mul_eq_zero.mp hdelta with hdelta | hdelta
      · exact (div_eq_zero_iff.mp hdelta).resolve_right hspan.ne'
      · exact absurd hdelta h.flexSum_pos.ne'
    rw [hsame, hzero, add_zero]
  · intro j before after hbefore hafter hle
    rw [hsame] at hafter
    rwa [← Option.some.inj (hbefore.symm.trans hafter)]

theorem Flexes.tracks_noBands (h : Flexes s d pre post n m) (hspan : 0 < d.parentSpan) (hfree : ¬ Frozen d)
    (hbands : NoBands s.children) (p : K) : Tracks s d p := by
  have hflex := h.flexSum_pos
  have hbudget : budget s.children s.span = d.parentSpan := by
    rw [h.span] at hspan ⊢
    exact (budget_eq_iff hspan).mpr hbands
  refine ⟨?_, ?_⟩
  · intro hmoved
    rw [h.edge_dragged hspan hfree, hbudget, hmoved, weightDelta_eq hspan hflex]
    field_simp
    ring
  · obtain ⟨hlead, htrail⟩ := h.landed_nonneg hspan p
    obtain ⟨hboundLead, hboundTrail⟩ := h.landed_bounds hspan p
    have hkept {w w' : K} (hw : 0 ≤ w) (hw' : 0 ≤ w') (hbound : min d.floorWeight w ≤ w')
        (hle : minLeaf s.axis ≤ share s.children s.span w) : minLeaf s.axis ≤ share s.children s.span w' := by
      rw [h.share_eq hfree hw, hbudget] at hle
      rw [h.share_eq hfree hw', hbudget]
      rcases min_le_iff.mp hbound with hbound | hbound
      · have hfloor : minLeaf d.axis / d.parentSpan * d.flexSum ≤ w' := (le_max_left _ _).trans hbound
        rw [h.axis, div_mul_eq_mul_div, div_le_iff₀ hspan] at hfloor
        rw [le_div_iff₀ hflex]
        linarith
      · exact hle.trans (div_le_div_of_nonneg_right (mul_le_mul_of_nonneg_left hbound hspan.le) hflex.le)
    rw [h.dragged_eq, extents_pair hlead htrail h.leading h.trailing (by ring)]
    have hbefore : extents (pair pre post n m _ _) s.span = _ :=
      extents_pair h.leading h.trailing h.leading h.trailing rfl
    rw [← h.children] at hbefore ⊢
    rw [hbefore]
    exact floors_pair (hkept h.leading hlead hboundLead) (hkept h.trailing htrail hboundTrail) _ _

/-- A weight the clamp lets through, other than the one the seam has. -/
theorem exists_free (hfree : ¬ Frozen d) :
    ∃ w, w ≠ d.leadingWeight ∧ min d.floorWeight d.leadingWeight ≤ w ∧
      w ≤ max (d.leadingWeight + d.trailingWeight - d.floorWeight) d.leadingWeight := by
  rcases not_and_or.mp hfree with hroom | hroom
  · have hroom := not_le.mp hroom
    exact ⟨d.floorWeight, hroom.ne, min_le_left _ _, hroom.le.trans (le_max_right _ _)⟩
  · have hroom := not_le.mp hroom
    refine ⟨d.leadingWeight + d.trailingWeight - d.floorWeight, ?_, ?_, le_max_left _ _⟩
    · intro heq
      linarith
    · exact (min_le_right _ _).trans (by linarith)

/-- Every drag of a seam is one to one exactly when no fixed child takes
length, or the clamp lets nothing through. -/
theorem Flexes.tracks_iff (h : Flexes s d pre post n m) :
    (∀ p, Tracks s d p) ↔ 0 < d.parentSpan ∧ (NoBands s.children ∨ Frozen d) := by
  constructor
  · intro htracks
    have hspan : 0 < d.parentSpan := by
      by_contra hnot
      have hdead : d.parentSpan ≤ 0 ∨ d.flexSum ≤ 0 := .inl (not_lt.mp hnot)
      have hdelta : d.weightDelta 1 = 0 := if_pos hdead
      have hlanded : d.landed 1 = d.leadingWeight := by
        rw [Divider.landed, hdelta, add_zero]
        exact if_pos hdead
      have hmoves := (htracks 1).moves (by rw [hlanded, hdelta, add_zero])
      rw [h.dragged_eq, hlanded, add_sub_cancel_left, ← h.children] at hmoves
      linarith
    refine ⟨hspan, ?_⟩
    by_contra hnot
    rw [not_or] at hnot
    obtain ⟨hbands, hfree⟩ := hnot
    obtain ⟨w, hne, hlower, hupper⟩ := exists_free hfree
    have hflex := h.flexSum_pos
    have hdelta : d.weightDelta ((w - d.leadingWeight) * d.parentSpan / d.flexSum) = w - d.leadingWeight := by
      rw [weightDelta_eq hspan hflex]
      field_simp
    have hlanded : d.landed ((w - d.leadingWeight) * d.parentSpan / d.flexSum) = w := by
      rw [Divider.landed, hdelta, add_sub_cancel]
      exact clamped_eq hspan hflex hlower hupper
    have hmoves := (htracks ((w - d.leadingWeight) * d.parentSpan / d.flexSum)).moves (by
      rw [hlanded, hdelta]
      ring)
    rw [h.edge_dragged hspan hfree, hlanded, add_right_inj, mul_comm (budget _ _),
      div_left_inj' hflex.ne', mul_right_inj' (sub_ne_zero.mpr hne), h.span] at hmoves
    rw [h.span] at hspan
    exact hbands ((budget_eq_iff hspan).mp hmoves)
  · rintro ⟨hspan, hok⟩ p
    by_cases hfrozen : Frozen d
    · exact h.tracks_frozen hspan hfrozen p
    · exact h.tracks_noBands hspan hfrozen (hok.resolve_right hfrozen) p

end

/-- The split's own seam between two flex children, taken apart. -/
theorem Between.flexes {lead trail : K} {n m : SplitNode K}
    (h : Between s thickness d (.flex lead, n) (.flex trail, m)) (hlead : 0 ≤ lead) (htrail : 0 ≤ trail) :
    ∃ pre post, Flexes s d pre post n m := by
  obtain ⟨pre, rest, hchildren, hlength⟩ := Position.of_getElem? h.here
  have hnext := h.next
  rw [hchildren, ← hlength, List.getElem?_append_right (by omega), Nat.add_sub_cancel_left] at hnext
  cases rest with
  | nil => simp at hnext
  | cons trailing post =>
    obtain rfl : trailing = (.flex trail, m) := by simpa using hnext
    have hleading : d.leadingWeight = lead := h.leadingWeight
    have htrailing : d.trailingWeight = trail := h.trailingWeight
    exact ⟨pre, post, by rw [hchildren, hleading, htrailing]; rfl, hlength.symm, h.axis, h.span, h.flexSum,
      hleading ▸ hlead, htrailing ▸ htrail⟩

/-! ## §5 The tree -/

theorem one_partition (root : SplitNode K) (bound : Rect K) (thickness : K) (hbound : Proper bound) :
    (∀ s ∈ splits bound root, Partitioned s) ∧
      dividers root bound thickness = (splits bound root).flatMap (·.seams thickness) ∧
      ∀ s ∈ splits bound root, ∀ d ∈ s.seams thickness, ∃ leading trailing,
        Between s thickness d leading trailing ∧
          ∀ lead trail, leading.1 = .flex lead → trailing.1 = .flex trail → 0 ≤ lead → 0 ≤ trail →
            ((∀ p, Tracks s d p) ↔ 0 < d.parentSpan ∧ (NoBands s.children ∨ Frozen d)) := by
  have hpartitioned (s : PlacedSplit K) (hs : s ∈ splits bound root) : Partitioned s :=
    partitioned (splits_proper hbound root s hs)
  refine ⟨hpartitioned, collectDividers_eq thickness bound root, ?_⟩
  intro s hs d hd
  obtain ⟨⟨leading, n⟩, ⟨trailing, m⟩, hbetween⟩ := between_of_mem (hpartitioned s hs) hd
  refine ⟨(leading, n), (trailing, m), hbetween, ?_⟩
  rintro lead trail rfl rfl hlead htrail
  obtain ⟨pre, post, hflexes⟩ := hbetween.flexes hlead htrail
  exact hflexes.tracks_iff

def anyId : Wire.RawUuid := ⟨List.replicate 16 1, rfl⟩

/-- A fixed band of 200 points in front of two flex children, in 1000 points. -/
def banded : PlacedSplit ℚ where
  id := anyId
  axis := .horizontal
  children := [(.fixed 200, .leaf anyId), (.flex 1, .leaf anyId), (.flex 1, .leaf anyId)]
  rect := ⟨0, 0, 1000, 600⟩

/-- The seam between the flex children. -/
def bandedSeam : Divider ℚ := ⟨anyId, 1, .horizontal, ⟨592, 0, 16, 600⟩, 1000, 2, 1, 1⟩

/-- A drag by 100 points moves the seam by 80. -/
theorem drag_falls_short :
    banded.seams 16 = [⟨anyId, 0, .horizontal, ⟨192, 0, 16, 600⟩, 1000, 2, 0, 1⟩, bandedSeam] ∧
      bandedSeam.landed 100 = bandedSeam.leadingWeight + bandedSeam.weightDelta 100 ∧
      banded.edge banded.children 1 = 600 ∧ banded.edge (dragged banded bandedSeam 100) 1 = 680 := by
  refine ⟨?_, ?_, ?_, ?_⟩ <;> decide +kernel

theorem one_partition_banded :
    Partitioned banded ∧ ∃ leading trailing, Between banded 16 bandedSeam leading trailing ∧
      ∀ lead trail, leading.1 = .flex lead → trailing.1 = .flex trail → 0 ≤ lead → 0 ≤ trail →
        ((∀ p, Tracks banded bandedSeam p) ↔
          0 < bandedSeam.parentSpan ∧ (NoBands banded.children ∨ Frozen bandedSeam)) :=
  have h := one_partition (.split anyId .horizontal banded.children) (⟨0, 0, 1000, 600⟩ : Rect ℚ) 16
    ⟨by norm_num, by norm_num⟩
  ⟨h.1 banded List.mem_cons_self, h.2.2 banded List.mem_cons_self bandedSeam (by decide +kernel)⟩

end SlopDesk.Tree.Exact
