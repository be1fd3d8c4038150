/-
SlopDesk.Base.Blocks — lists laid out in blocks of one width.

§1 row-major tables: the entry at `r * k + c` of the concatenation of
rows of `k` entries each. §2 `chunks g xs`, the blocks of `g` members
that `xs` is cut into, the last one possibly short: member `i` of the
list is member `i % g` of block `i / g`. §3 counts over a range, and what
changing the predicate at one place does to them.
-/
namespace SlopDesk.Base.Blocks

variable {α : Type u} {β : Type v}
variable {g n : Nat}

/-! ## §1 Row-major tables -/

theorem getElem?_flatMap {f : α → List β} {k : Nat} {rows : List α}
    (hwidth : ∀ row ∈ rows, (f row).length = k) {r c : Nat} (hr : r < rows.length) (hc : c < k) :
    (rows.flatMap f)[r * k + c]? = (f rows[r])[c]? := by
  induction rows generalizing r with
  | nil => simp at hr
  | cons row rows ih =>
    have hrow := hwidth row (List.mem_cons_self ..)
    rw [List.flatMap_cons]
    cases r with
    | zero => rw [List.getElem?_append_left (by omega)]; simp
    | succ r =>
      have hskip : (r + 1) * k + c - (f row).length = r * k + c := by
        rw [hrow, Nat.succ_mul]
        omega
      rw [List.getElem?_append_right (by rw [hrow, Nat.succ_mul]; omega), hskip,
        ih (fun row' h => hwidth row' (List.mem_cons_of_mem _ h)) (by simpa using hr)]
      simp

/-! ## §2 Chunks -/

/-- How many blocks of `g` cover `n` members (`div_ceil`). -/
def blockCount (n g : Nat) : Nat := (n + g - 1) / g

theorem lt_blockCount {q : Nat} (hg : 0 < g) : q < blockCount n g ↔ q * g < n := by
  unfold blockCount
  rw [Nat.lt_div_iff_mul_lt hg]
  omega

theorem blockCount_le {n' : Nat} (h : n ≤ n') : blockCount n g ≤ blockCount n' g :=
  Nat.div_le_div_right (by omega)

/-- `chunks`: consecutive blocks of `g` members. -/
def chunks (g : Nat) (xs : List α) : List (List α) :=
  (List.range (blockCount xs.length g)).map fun q => (xs.drop (q * g)).take g

@[simp] theorem length_chunks (g : Nat) (xs : List α) : (chunks g xs).length = blockCount xs.length g := by
  simp [chunks]

theorem getElem?_chunks (hg : 0 < g) (xs : List α) {q : Nat} (hq : q * g < xs.length) :
    (chunks g xs)[q]? = some ((xs.drop (q * g)).take g) := by
  simp [chunks, (lt_blockCount hg).mpr hq]

theorem flatten_chunks (hg : 0 < g) (xs : List α) : (chunks g xs).flatten = xs := by
  have hprefix : ∀ q, ((List.range q).map fun q => (xs.drop (q * g)).take g).flatten = xs.take (q * g) := by
    intro q
    induction q with
    | zero => simp
    | succ q ih =>
      rw [List.range_succ, List.map_append, List.flatten_append, ih, Nat.succ_mul, List.take_add]
      simp
  have hlast : xs.length ≤ blockCount xs.length g * g :=
    Nat.le_of_not_lt fun h => Nat.lt_irrefl _ ((lt_blockCount hg).mpr h)
  rw [chunks, hprefix, List.take_of_length_le hlast]

theorem length_of_mem_chunks {xs block : List α} (h : block ∈ chunks g xs) : block.length ≤ g := by
  obtain ⟨q, -, rfl⟩ := List.mem_map.mp h
  simp only [List.length_take]
  omega

theorem div_mul_lt {i : Nat} (h : i < n) : i / g * g < n :=
  Nat.lt_of_le_of_lt (Nat.div_mul_le_self i g) h

/-! ## §3 Counts -/

theorem countP_range_succ (p : Nat → Bool) (n : Nat) :
    (List.range (n + 1)).countP p = (List.range n).countP p + if p n then 1 else 0 := by
  rw [List.range_succ, List.countP_append]
  cases h : p n <;> simp [h]

theorem countP_range_congr {p p' : Nat → Bool} (h : ∀ i < n, p i = p' i) :
    (List.range n).countP p = (List.range n).countP p' := by
  induction n with
  | zero => rfl
  | succ n ih =>
    rw [countP_range_succ, countP_range_succ, ih fun i hi => h i (by omega), h n (by omega)]

theorem countP_range_update (p p' : Nat → Bool) {j : Nat} (hj : j < n) (h : ∀ i < n, i ≠ j → p i = p' i) :
    (List.range n).countP p + (if p' j then 1 else 0) =
      (List.range n).countP p' + if p j then 1 else 0 := by
  induction n with
  | zero => simp at hj
  | succ n ih =>
    rw [countP_range_succ, countP_range_succ]
    by_cases hlast : j = n
    · rw [hlast, countP_range_congr fun i hi => h i (by omega) (by omega)]
      omega
    · have hrest := ih (by omega) fun i hi hne => h i (by omega) hne
      rw [h n (by omega) (Ne.symm hlast)]
      omega

end SlopDesk.Base.Blocks
