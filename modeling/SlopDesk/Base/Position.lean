/-
SlopDesk.Base.Position — a list cut at one of its positions.

A lookup that finds something cuts the list in two around it; at such a
cut an edit by position is an edit of the middle, whatever the two sides
are.
-/
import Mathlib.Data.List.InsertIdx
import Mathlib.Data.List.Forall2

namespace SlopDesk.Base.Position

variable {α : Type u} {xs pre post : List α} {x y : α} {i : Nat} {p : α → Bool}
variable {β : Type v} {f : α → Option β}

/-! ## Cuts -/

theorem of_getElem? (h : xs[i]? = some x) : ∃ pre post, xs = pre ++ x :: post ∧ pre.length = i := by
  obtain ⟨hi, rfl⟩ := List.getElem?_eq_some_iff.mp h
  exact ⟨xs.take i, xs.drop (i + 1), by simp, by simp; omega⟩

theorem of_findIdx? (h : xs.findIdx? p = some i) :
    ∃ pre x post, xs = pre ++ x :: post ∧ pre.length = i ∧ p x = true ∧ ∀ y ∈ pre, p y = false := by
  obtain ⟨hi, hp, hbefore⟩ := List.findIdx?_eq_some_iff_getElem.mp h
  refine ⟨xs.take i, xs[i], xs.drop (i + 1), by simp, by simp; omega, hp, fun y hy => ?_⟩
  obtain ⟨j, hj, rfl⟩ := List.mem_take_iff_getElem.mp hy
  exact eq_false_of_ne_true (hbefore j (by omega))

theorem exists_findIdx? (hx : x ∈ xs) (hp : p x = true) : ∃ i, xs.findIdx? p = some i := by
  cases h : xs.findIdx? p with
  | some i => exact ⟨i, rfl⟩
  | none => simp_all [List.findIdx?_eq_none_iff]

theorem findIdx?_cut (hpre : ∀ y ∈ pre, p y = false) (hx : p x = true) :
    (pre ++ x :: post).findIdx? p = some pre.length := by
  rw [List.findIdx?_eq_some_iff_getElem]
  refine ⟨by simp, by simpa using hx, fun j hj => ?_⟩
  rw [List.getElem_append_left hj]
  simpa using hpre _ (List.getElem_mem hj)

/-! ## Two lists side by side -/

theorem forall₂_append {R : α → β → Prop} {ys : List β} (h : List.Forall₂ R (pre ++ post) ys) :
    ∃ pre' post', List.Forall₂ R pre pre' ∧ List.Forall₂ R post post' ∧ ys = pre' ++ post' := by
  induction pre generalizing ys with
  | nil => exact ⟨[], ys, .nil, h, rfl⟩
  | cons x rest ih =>
    obtain ⟨y, ys', hxy, hrest, rfl⟩ := List.forall₂_cons_left_iff.mp h
    obtain ⟨pre', post', hpre, hpost, rfl⟩ := ih hrest
    exact ⟨y :: pre', post', .cons hxy hpre, hpost, rfl⟩

theorem forall₂_mem {R : α → β → Prop} {ys : List β} (h : List.Forall₂ R xs ys)
    (hx : x ∈ xs) : ∃ y ∈ ys, R x y := by
  obtain ⟨pre, post, rfl⟩ := List.append_of_mem hx
  obtain ⟨pre', rest, -, hrest, rfl⟩ := forall₂_append h
  obtain ⟨y, post', hxy, -, rfl⟩ := List.forall₂_cons_left_iff.mp hrest
  exact ⟨y, by simp, hxy⟩

/-- Where a filter lets everything up to a position through, what is at
the position stays there. -/
theorem getElem?_filterMap (h : xs[i]? = some x)
    (hkept : ∀ j ≤ i, ∀ y, xs[j]? = some y → (f y).isSome) : (xs.filterMap f)[i]? = f x := by
  induction xs generalizing i with
  | nil => cases h
  | cons head rest ih =>
    obtain ⟨image, himage⟩ := Option.isSome_iff_exists.mp (hkept 0 (Nat.zero_le i) head rfl)
    rw [List.filterMap_cons_some himage]
    cases i with
    | zero =>
      grind
    | succ i => exact ih (by simpa using h) fun j hj y hy => hkept (j + 1) (by omega) y (by simpa using hy)

/-! ## Edits at a cut -/

@[simp] theorem getElem?_cut : (pre ++ x :: post)[pre.length]? = some x := by simp

@[simp] theorem set_cut : (pre ++ x :: post).set pre.length y = pre ++ y :: post := by simp

@[simp] theorem modify_cut (f : α → α) : (pre ++ x :: post).modify pre.length f = pre ++ f x :: post := by
  rw [List.modify_eq_take_cons_drop (by simp)]
  simp

@[simp] theorem eraseIdx_cut : (pre ++ x :: post).eraseIdx pre.length = pre ++ post := by
  rw [List.eraseIdx_append_of_length_le (Nat.le_refl _)]
  simp

@[simp] theorem insertIdx_cut : (pre ++ post).insertIdx pre.length x = pre ++ x :: post := by
  induction pre with
  | nil => rfl
  | cons z rest ih => simpa using ih

@[simp] theorem insertIdx_cut_succ :
    (pre ++ y :: post).insertIdx (pre.length + 1) x = pre ++ y :: x :: post := by
  induction pre with
  | nil => rfl
  | cons z rest ih => simpa using ih

theorem insertIdx_eq (h : i ≤ xs.length) : xs.insertIdx i x = xs.take i ++ x :: xs.drop i := by
  have hcut : (xs.take i ++ xs.drop i).insertIdx (xs.take i).length x = xs.take i ++ x :: xs.drop i :=
    insertIdx_cut
  simpa [Nat.min_eq_left h] using hcut

/-! ## Counting across an edit -/

section

variable {β : Type v} [DecidableEq β] (f : α → List β) (b : β)

theorem count_set (h : xs[i]? = some x) :
    ((xs.set i y).flatMap f).count b + (f x).count b = (xs.flatMap f).count b + (f y).count b := by
  obtain ⟨pre, post, rfl, rfl⟩ := of_getElem? h
  simp only [set_cut, List.flatMap_append, List.flatMap_cons, List.count_append]
  omega

theorem count_eraseIdx (h : xs[i]? = some x) :
    ((xs.eraseIdx i).flatMap f).count b + (f x).count b = (xs.flatMap f).count b := by
  obtain ⟨pre, post, rfl, rfl⟩ := of_getElem? h
  simp only [eraseIdx_cut, List.flatMap_append, List.flatMap_cons, List.count_append]
  omega

theorem count_insertIdx (h : i ≤ xs.length) :
    ((xs.insertIdx i y).flatMap f).count b = (xs.flatMap f).count b + (f y).count b := by
  rw [insertIdx_eq h]
  conv_rhs => rw [← List.take_append_drop i xs]
  simp only [List.flatMap_append, List.flatMap_cons, List.count_append]
  omega

theorem count_map_le {g : α → α} (h : ∀ x ∈ xs, (f (g x)).count b ≤ (f x).count b) :
    ((xs.map g).flatMap f).count b ≤ (xs.flatMap f).count b := by
  induction xs with
  | nil => simp
  | cons x rest ih =>
    have hrest := ih fun y hy => h y (List.mem_cons_of_mem _ hy)
    have hx := h x List.mem_cons_self
    simp only [List.map_cons, List.flatMap_cons, List.count_append]
    omega

theorem count_le_of_mem (h : x ∈ xs) : (f x).count b ≤ (xs.flatMap f).count b := by
  obtain ⟨pre, post, rfl⟩ := List.append_of_mem h
  simp only [List.flatMap_append, List.flatMap_cons, List.count_append]
  omega

end

/-! ## A search with its index -/

/-- `enumerate().find_map`: the first element that has an answer, where it
is and what the answer is. -/
def findMap (f : α → Option β) (xs : List α) : Option (Nat × β) :=
  xs.zipIdx.findSome? fun (x, i) => (f x).map fun b => (i, b)

theorem findMap_cons (f : α → Option β) (x : α) (xs : List α) : findMap f (x :: xs) =
      match f x with
      | some b => some (0, b)
      | none => (findMap f xs).map fun found => (found.1 + 1, found.2) := by
  cases hf : f x with
  | some b => simp [findMap, hf]
  | none =>
    simp only [findMap, List.zipIdx_cons, List.findSome?_cons, hf, Option.map_none,
      Nat.zero_add, List.zipIdx_succ, List.findSome?_map]
    simp [Function.comp_def]

theorem of_findMap {b : β} (h : findMap f xs = some (i, b)) :
    ∃ pre x post, xs = pre ++ x :: post ∧ pre.length = i ∧ f x = some b ∧ ∀ y ∈ pre, f y = none := by
  induction xs generalizing i with
  | nil => cases h
  | cons x rest ih =>
    rw [findMap_cons] at h
    cases hf : f x with
    | some c =>
      obtain ⟨rfl, rfl⟩ : 0 = i ∧ c = b := by simpa [hf] using h
      exact ⟨[], x, rest, rfl, rfl, hf, by simp⟩
    | none =>
      rw [hf] at h
      obtain ⟨⟨j, c⟩, hrest, heq⟩ := Option.map_eq_some_iff.mp h
      obtain ⟨rfl, rfl⟩ : j + 1 = i ∧ c = b := by simpa using heq
      obtain ⟨pre, y, post, rfl, rfl, hy, hbefore⟩ := ih hrest
      refine ⟨x :: pre, y, post, rfl, rfl, hy, fun z hz => ?_⟩
      rcases List.mem_cons.mp hz with rfl | hz
      · exact hf
      · exact hbefore z hz

theorem findMap_cut {b : β} (hpre : ∀ y ∈ pre, f y = none) (hx : f x = some b) :
    findMap f (pre ++ x :: post) = some (pre.length, b) := by
  induction pre with
  | nil => simp [findMap_cons, hx]
  | cons y rest ih =>
    rw [List.cons_append, findMap_cons, hpre y List.mem_cons_self,
      ih fun z hz => hpre z (List.mem_cons_of_mem _ hz)]
    rfl

theorem findMap_eq_none : findMap f xs = none ↔ ∀ x ∈ xs, f x = none := by
  induction xs with
  | nil => simp [findMap]
  | cons x rest ih =>
    rw [findMap_cons]
    cases hf : f x with
    | some b => simp [hf]
    | none => simp [hf, ih]

end SlopDesk.Base.Position
