/-
SlopDesk.Base.RowReduction — Cauchy matrices, and the elimination that inverts
them.
-/
import Mathlib.LinearAlgebra.Lagrange

/-! # Gauss-Jordan elimination over a field, as
operations on families of row vectors.

§1 swapping, scaling and clearing keep the space the rows span. §2 while
the columns before `n` are unit columns and the rows still span what a
family of full column rank spans, there is a pivot at or below the
diagonal of column `n`. §3 when every column of the left half is a unit
column, the right half of the rows of `[A | I]` is a left inverse of `A`.
-/

namespace SlopDesk.Base.RowReduction

variable {F : Type*} [Field F] {ι γ : Type*}

/-! ## §1 Row operations -/

/-- What the rows span. -/
def rowSpan (w : ι → γ → F) : Submodule F (γ → F) := Submodule.span F (Set.range w)

theorem mem_rowSpan (w : ι → γ → F) (r : ι) : w r ∈ rowSpan w := Submodule.subset_span ⟨r, rfl⟩

theorem rowSpan_le {w : ι → γ → F} {P : Submodule F (γ → F)} (h : ∀ r, w r ∈ P) : rowSpan w ≤ P := by
  refine Submodule.span_le.mpr ?_
  rintro _ ⟨r, rfl⟩
  exact h r

variable [DecidableEq ι]

theorem rowSpan_swap (w : ι → γ → F) (a b : ι) : rowSpan (w ∘ Equiv.swap a b) = rowSpan w := by
  unfold rowSpan
  rw [(Equiv.swap a b).surjective.range_comp]

/-- Row `a` times `s`. -/
def scale (w : ι → γ → F) (a : ι) (s : F) : ι → γ → F := Function.update w a (s • w a)

@[simp] theorem scale_self (w : ι → γ → F) (a : ι) (s : F) : scale w a s a = s • w a := by
  simp [scale]

theorem scale_of_ne (w : ι → γ → F) {a r : ι} (s : F) (h : r ≠ a) : scale w a s r = w r := by
  simp [scale, h]

theorem rowSpan_scale (w : ι → γ → F) (a : ι) {s : F} (hs : s ≠ 0) : rowSpan (scale w a s) = rowSpan w := by
  refine le_antisymm (rowSpan_le fun r => ?_) (rowSpan_le fun r => ?_)
  · by_cases hr : r = a
    · subst hr
      rw [scale_self]
      exact Submodule.smul_mem _ s (mem_rowSpan w r)
    · rw [scale_of_ne w s hr]
      exact mem_rowSpan w r
  · by_cases hr : r = a
    · subst hr
      have hback : w r = s⁻¹ • scale w r s r := by rw [scale_self, inv_smul_smul₀ hs]
      rw [hback]
      exact Submodule.smul_mem _ s⁻¹ (mem_rowSpan _ r)
    · rw [← scale_of_ne w s hr]
      exact mem_rowSpan _ r

/-- Every other row less its entry of column `c` times row `a`. -/
def clear (w : ι → γ → F) (a : ι) (c : γ) : ι → γ → F := fun r =>
  if r = a then w a else w r - w r c • w a

@[simp] theorem clear_self (w : ι → γ → F) (a : ι) (c : γ) : clear w a c a = w a := by
  simp [clear]

theorem clear_of_ne (w : ι → γ → F) {a r : ι} (c : γ) (h : r ≠ a) : clear w a c r = w r - w r c • w a := by
  simp [clear, h]

theorem rowSpan_clear (w : ι → γ → F) (a : ι) (c : γ) : rowSpan (clear w a c) = rowSpan w := by
  refine le_antisymm (rowSpan_le fun r => ?_) (rowSpan_le fun r => ?_)
  · by_cases hr : r = a
    · subst hr
      rw [clear_self]
      exact mem_rowSpan w r
    · rw [clear_of_ne w c hr]
      exact Submodule.sub_mem _ (mem_rowSpan w r) (Submodule.smul_mem _ _ (mem_rowSpan w a))
  · by_cases hr : r = a
    · subst hr
      rw [← clear_self w r c]
      exact mem_rowSpan _ r
    · have hback : w r = clear w a c r + w r c • clear w a c a := by
        rw [clear_of_ne w c hr, clear_self, sub_add_cancel]
      rw [hback]
      exact Submodule.add_mem _ (mem_rowSpan _ r) (Submodule.smul_mem _ _ (mem_rowSpan _ a))

/-! ## §2 Pivots -/

variable {k : Nat}

/-- The columns before `n` of the left half are unit columns. -/
def Reduced (left : Fin k → γ) (n : Nat) (w : Fin k → γ → F) : Prop :=
  ∀ c : Fin k, c.val < n → ∀ r, w r (left c) = if r = c then 1 else 0

/-- No combination of the left columns but the trivial one is zero. -/
def FullColumnRank (left : Fin k → γ) (w : Fin k → γ → F) : Prop :=
  ∀ v : Fin k → F, (∀ r, ∑ c, v c * w r (left c) = 0) → v = 0

theorem FullColumnRank.of_rowSpan {left : Fin k → γ} {w w' : Fin k → γ → F}
    (h : FullColumnRank left w) (hspan : rowSpan w' = rowSpan w) : FullColumnRank left w' := by
  intro v hv
  refine h v fun r => ?_
  let combination : (γ → F) →ₗ[F] F := ∑ c, v c • LinearMap.proj (left c)
  have happly : ∀ u, combination u = ∑ c, v c * u (left c) := by
    simp [combination, LinearMap.sum_apply]
  have hker : rowSpan w' ≤ LinearMap.ker combination := by
    refine rowSpan_le fun r' => ?_
    rw [LinearMap.mem_ker, happly]
    exact hv r'
  have hmem : w r ∈ LinearMap.ker combination := hker (hspan ▸ mem_rowSpan w r)
  rw [LinearMap.mem_ker, happly] at hmem
  exact hmem

/-- The next column has a pivot: were it zero from the diagonal down, it
would be a combination of the unit columns before it. -/
theorem exists_pivot {left : Fin k → γ} {w : Fin k → γ → F} (hrank : FullColumnRank left w)
    {n : Fin k} (hred : Reduced left n w) : ∃ r : Fin k, n ≤ r ∧ w r (left n) ≠ 0 := by
  by_contra hnone
  have hzero : ∀ r : Fin k, n ≤ r → w r (left n) = 0 := by
    grind
  let v : Fin k → F := fun c => if c < n then w c (left n) else if c = n then -1 else 0
  have hv : v = 0 := by
    refine hrank v fun r => ?_
    have hterm : ∀ c, v c * w r (left c) =
        (if c = r then (if r < n then w r (left n) else 0) else 0) +
          (if c = n then -w r (left n) else 0) := by
      intro c
      rcases lt_trichotomy c n with hc | rfl | hc
      · rw [hred c hc r]
        by_cases hrc : r = c
        · subst hrc
          simp [v, hc, hc.ne]
        · simp [hrc, Ne.symm hrc, hc.ne]
      · by_cases hrc : c = r <;> simp [v, hrc]
      · grind
    calc ∑ c, v c * w r (left c)
      _ = (if r < n then w r (left n) else 0) + -w r (left n) := by
        rw [Finset.sum_congr rfl fun c _ => hterm c, Finset.sum_add_distrib]
        simp
      _ = 0 := by
        grind
  have hone : v n = 0 := congrFun hv n
  simp [v] at hone

/-- One column: the row with the pivot is scaled to one there and the
column is cleared from the others. -/
theorem reduced_clear {left : Fin k → γ} {w : Fin k → γ → F} {n : Fin k} (hred : Reduced left n w)
    (hpivot : w n (left n) ≠ 0) : Reduced left (n + 1) (clear (scale w n (w n (left n))⁻¹) n (left n)) := by
  intro c hc r
  have hunit : scale w n (w n (left n))⁻¹ n (left n) = 1 := by simp [hpivot]
  rcases Nat.lt_succ_iff_lt_or_eq.mp hc with hlt | heq
  · -- the pivot row is zero in the earlier columns
    have hpre : scale w n (w n (left n))⁻¹ n (left c) = 0 := by
      have hne : n ≠ c := fun h => absurd hlt (by simp [h])
      simp [hred c hlt n, hne]
    by_cases hr : r = n
    · subst hr
      have hne : r ≠ c := fun h => absurd hlt (by simp [h])
      rw [clear_self, hpre, if_neg hne]
    · rw [clear_of_ne _ _ hr, scale_of_ne _ _ hr, ← hred c hlt r, Pi.sub_apply, Pi.smul_apply,
        hpre]
      simp
  · obtain rfl : c = n := Fin.ext heq
    by_cases hr : r = c
    · subst hr
      rw [clear_self, hunit, if_pos rfl]
    · rw [clear_of_ne _ _ hr, if_neg hr]
      simp [hpivot]

theorem reduced_swap {left : Fin k → γ} {w : Fin k → γ → F} {n p : Fin k} (hred : Reduced left n w)
    (hp : n ≤ p) : Reduced left n (w ∘ Equiv.swap n p) := by
  intro c hc r
  have hcn : c ≠ n := fun h => absurd hc (by simp [h])
  have hcp : c ≠ p := fun h => absurd hc (not_lt.mpr (h ▸ hp))
  have hfix : Equiv.swap n p r = c ↔ r = c := by
    rw [← Equiv.swap_apply_of_ne_of_ne hcn hcp, Equiv.apply_eq_iff_eq,
      Equiv.swap_apply_of_ne_of_ne hcn hcp]
  simp [hred c hc, hfix]

/-! ## §3 The inverse -/

/-- When `w` spans what `[A | I]` spans and its left half is the identity,
its right half times `A` is the identity. -/
theorem left_inverse {left right : Fin k → γ} {A : Fin k → Fin k → F} {w w' : Fin k → γ → F}
    (hleft : ∀ r c, w r (left c) = A r c) (hright : ∀ r c, w r (right c) = if r = c then 1 else 0)
    (hspan : rowSpan w' = rowSpan w) (hred : Reduced left k w') (r c : Fin k) :
    ∑ t, w' r (right t) * A t c = if r = c then 1 else 0 := by
  let excess : (γ → F) →ₗ[F] F :=
    ∑ t, A t c • LinearMap.proj (right t) - LinearMap.proj (left c)
  have happly : ∀ u, excess u = ∑ t, A t c * u (right t) - u (left c) := by
    simp [excess, LinearMap.sum_apply]
  have hker : rowSpan w ≤ LinearMap.ker excess := by
    refine rowSpan_le fun r' => ?_
    rw [LinearMap.mem_ker, happly]
    simp [hleft, hright]
  have hmem : w' r ∈ LinearMap.ker excess := hker (hspan ▸ mem_rowSpan w' r)
  rw [LinearMap.mem_ker, happly, sub_eq_zero, hred c c.isLt r] at hmem
  rw [← hmem]
  exact Finset.sum_congr rfl fun t _ => mul_comm _ _

end SlopDesk.Base.RowReduction

/-! # Systematic codes with a Cauchy parity block
over a field.

`cauchy_kernel`: the columns of a Cauchy matrix `1 / (x r - y j)` with
at least as many rows as columns are independent. The numerator of
`∑ v j / (X - y j)` has degree below the number of columns, so it is zero
once it vanishes at that many rows, and at `y j` it is `v j` times a
product of differences. `systematic_kernel`: a vector that is zero at
every column it was given and is orthogonal to as many parity rows as it
has other columns is zero, which is what makes the code recover any such
set of losses.
-/

namespace SlopDesk.Base

open Polynomial Lagrange

variable {F : Type*} [Field F] {ι κ : Type*} [DecidableEq ι]

/-- The numerator of `∑ j ∈ s, v j / (X - y j)` over the product of all
the denominators. -/
noncomputable def cauchyNumerator (s : Finset ι) (y v : ι → F) : F[X] :=
  ∑ j ∈ s, C (v j) * nodal (s.erase j) y

theorem degree_cauchyNumerator_lt (s : Finset ι) (y v : ι → F) :
    (cauchyNumerator s y v).degree < s.card := by
  rw [← mem_degreeLT]
  refine Submodule.sum_mem _ fun j hj => ?_
  rw [mem_degreeLT]
  have hcard : (s.erase j).card < s.card := Finset.card_erase_lt_of_mem hj
  calc (C (v j) * nodal (s.erase j) y).degree
    _ = (v j • nodal (s.erase j) y).degree := by rw [C_mul']
    _ ≤ (nodal (s.erase j) y).degree := degree_smul_le _ _
    _ = (s.erase j).card := degree_nodal
    _ < s.card := by exact_mod_cast hcard

theorem eval_cauchyNumerator_pole {s : Finset ι} {y v : ι → F} {j : ι} (hj : j ∈ s) :
    (cauchyNumerator s y v).eval (y j) = v j * (nodal (s.erase j) y).eval (y j) := by
  rw [cauchyNumerator, eval_finsetSum, Finset.sum_eq_single_of_mem j hj]
  · simp
  · intro l _ hne
    rw [eval_mul, eval_nodal_at_node (Finset.mem_erase.mpr ⟨hne.symm, hj⟩), mul_zero]

theorem eval_cauchyNumerator {s : Finset ι} {y v : ι → F} {x : F} (hx : ∀ j ∈ s, x ≠ y j) :
    (cauchyNumerator s y v).eval x = (nodal s y).eval x * ∑ j ∈ s, (x - y j)⁻¹ * v j := by
  rw [cauchyNumerator, eval_finsetSum, Finset.mul_sum]
  refine Finset.sum_congr rfl fun j hj => ?_
  have hne : x - y j ≠ 0 := sub_ne_zero.mpr (hx j hj)
  rw [eval_mul, eval_C, nodal_eq_mul_nodal_erase hj, eval_mul]
  simp only [eval_sub, eval_X, eval_C]
  field_simp

theorem cauchy_kernel {s : Finset ι} {t : Finset κ} {x : κ → F} {y v : ι → F}
    (hx : Set.InjOn x t) (hy : Set.InjOn y s) (hxy : ∀ r ∈ t, ∀ j ∈ s, x r ≠ y j)
    (hcard : s.card ≤ t.card) (h : ∀ r ∈ t, ∑ j ∈ s, (x r - y j)⁻¹ * v j = 0) :
    ∀ j ∈ s, v j = 0 := by
  have hzero : cauchyNumerator s y v = 0 := by
    refine eq_zero_of_degree_lt_of_eval_index_eq_zero t hx ?_ ?_
    · exact lt_of_lt_of_le (degree_cauchyNumerator_lt s y v) (by exact_mod_cast hcard)
    · intro r hr
      rw [eval_cauchyNumerator (hxy r hr), h r hr, mul_zero]
  intro j hj
  have hpole := eval_cauchyNumerator_pole (v := v) (y := y) hj
  rw [hzero, eval_zero] at hpole
  have hnodal : (nodal (s.erase j) y).eval (y j) ≠ 0 := by
    refine eval_nodal_not_at_node fun l hl heq => ?_
    have hls := Finset.mem_erase.mp hl
    exact hls.1 (hy hls.2 hj heq.symm)
  exact (mul_eq_zero.mp hpole.symm).resolve_right hnodal

/-- A vector that vanishes off `s` and is orthogonal to as many Cauchy
rows as `s` has columns is zero. -/
theorem systematic_kernel [Fintype ι] {s : Finset ι} {t : Finset κ} {x : κ → F} {y v : ι → F}
    (hx : Set.InjOn x t) (hy : Function.Injective y) (hxy : ∀ r ∈ t, ∀ j, x r ≠ y j)
    (hcard : s.card ≤ t.card) (hgiven : ∀ j, j ∉ s → v j = 0)
    (h : ∀ r ∈ t, ∑ j, (x r - y j)⁻¹ * v j = 0) : v = 0 := by
  have hsum : ∀ r ∈ t, ∑ j ∈ s, (x r - y j)⁻¹ * v j = 0 := by
    intro r hr
    rw [← h r hr]
    refine Finset.sum_subset (Finset.subset_univ s) fun j _ hj => ?_
    rw [hgiven j hj, mul_zero]
  have hs := cauchy_kernel hx hy.injOn (fun r hr j _ => hxy r hr j) hcard hsum
  funext j
  by_cases hj : j ∈ s
  · exact hs j hj
  · exact hgiven j hj

end SlopDesk.Base
