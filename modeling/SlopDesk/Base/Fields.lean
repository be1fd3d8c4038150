/-
SlopDesk.Base.Fields — the fields of a text with a separator between them.

§1 what a split and a join hold. §2 `spell`, the text with a separator in
front of every field: splitting it gives the fields back, and a text is the
join of its fields, so nothing else spells them.
-/
import Mathlib.Algebra.GroupWithZero.Nat
import Mathlib.Data.List.Basic

namespace SlopDesk.Base

variable {α : Type u} {sep : α}
variable {fields : List (List α)}

/-! ## §1 Splitting and joining -/

theorem of_mem_splitOn [DecidableEq α] {text : List α} :
    ∀ field ∈ text.splitOn sep, ∀ b ∈ field, b ∈ text ∧ b ≠ sep := by
  induction text with
  | nil => simp
  | cons x rest ih =>
    obtain ⟨first, others, hsplit⟩ := List.exists_cons_of_ne_nil (List.splitOn_ne_nil sep rest)
    rw [List.splitOn_cons_eq_if_modifyHead]
    rw [hsplit] at ih ⊢
    intro field hfield b hb
    have hrest : field ∈ first :: others → b ∈ x :: rest ∧ b ≠ sep := fun hfield =>
      ⟨List.mem_cons_of_mem _ (ih field hfield b hb).1, (ih field hfield b hb).2⟩
    split at hfield
    · rcases List.mem_cons.mp hfield with rfl | hfield
      · simp at hb
      · exact hrest hfield
    · rcases List.mem_cons.mp hfield with rfl | hfield
      · rcases List.mem_cons.mp hb with rfl | hb
        · exact ⟨List.mem_cons_self, by simpa using ‹¬(_ == sep) = true›⟩
        · exact ⟨List.mem_cons_of_mem _ (ih first List.mem_cons_self b hb).1, (ih first List.mem_cons_self b hb).2⟩
      · exact hrest (List.mem_cons_of_mem _ hfield)

theorem of_mem_intercalate {b : α} (h : b ∈ [sep].intercalate fields) :
    b = sep ∨ ∃ field ∈ fields, b ∈ field := by
  induction fields with
  | nil => simp at h
  | cons field others ih =>
    cases others with
    | nil => exact .inr ⟨field, by simp, by simpa using h⟩
    | cons second others =>
      rw [List.intercalate_cons_cons] at h
      rcases List.mem_append.mp h with h | h
      · rcases List.mem_append.mp h with h | h
        · exact .inr ⟨field, List.mem_cons_self, h⟩
        · exact .inl (List.mem_singleton.mp h)
      · rcases ih h with h | ⟨held, hmem, hb⟩
        · exact .inl h
        · exact .inr ⟨held, List.mem_cons_of_mem _ hmem, hb⟩

/-! ## §2 A separator in front of every field -/

/-- Every field with a separator in front of it. -/
def spell (sep : α) (fields : List (List α)) : List α := fields.flatMap (sep :: ·)

@[simp] theorem spell_nil : spell sep [] = [] := rfl

@[simp] theorem spell_cons (field : List α) (fields : List (List α)) :
    spell sep (field :: fields) = sep :: (field ++ spell sep fields) := rfl

theorem spell_append (fields more : List (List α)) :
    spell sep (fields ++ more) = spell sep fields ++ spell sep more := List.flatMap_append

theorem spell_of_ne_nil (h : fields ≠ []) : spell sep fields = sep :: [sep].intercalate fields := by
  induction fields with
  | nil => exact absurd rfl h
  | cons field fields ih =>
    cases fields with
    | nil => simp
    | cons second fields =>
      rw [spell_cons, ih (by simp), List.intercalate_cons_cons]
      simp

theorem spell_ne_nil (h : fields ≠ []) : spell sep fields ≠ [] := by
  rw [spell_of_ne_nil h]
  exact List.cons_ne_nil _ _

theorem length_spell (fields : List (List α)) :
    (spell sep fields).length = (fields.map (·.length + 1)).sum := by
  induction fields with
  | nil => rfl
  | cons field fields ih =>
    rw [spell_cons, List.length_cons, List.length_append, ih, List.map_cons, List.sum_cons]
    omega

theorem splitOn_spell [DecidableEq α] (h : ∀ field ∈ fields, sep ∉ field) :
    (spell sep fields).splitOn sep = [] :: fields := by
  induction fields with
  | nil => simp
  | cons field fields ih =>
    have hback := ih fun field hfield => h field (List.mem_cons_of_mem _ hfield)
    rw [spell_cons, ← List.nil_append (sep :: _), List.splitOn_append_cons_self]
    cases fields with
    | nil => simp [List.splitOn_eq_singleton (h field List.mem_cons_self)]
    | cons second fields =>
      rw [spell_cons, ← List.nil_append (sep :: _), List.splitOn_append_cons_self] at hback
      rw [spell_cons, List.splitOn_append_cons_self, List.splitOn_eq_singleton (h field List.mem_cons_self)]
      simpa using hback

end SlopDesk.Base
