/-
SlopDesk.Base.Checked — arithmetic and slicing that panic out of range.

A `Checked` computation reports no errors: it answers or it panics. Each
operation here answers within its bounds, by the lemma named after it.
-/
import SlopDesk.Base.Outcome

namespace SlopDesk.Base

/-- What a computation that reports no errors ended in. -/
abbrev Checked (α : Type u) := Outcome Empty α

namespace Checked

variable {α : Type u} {β : Type v}

/-- A subtraction that must not fall below zero. -/
def sub (a b : Nat) : Checked Nat := if b ≤ a then .ok (a - b) else .panicked

/-- The elements before and behind a place that must be there. -/
def splitAt (xs : List α) (i : Nat) : Checked (List α × List α) :=
  if i ≤ xs.length then .ok (xs.take i, xs.drop i) else .panicked

@[simp] theorem sub_ok {a b : Nat} (h : b ≤ a) : sub a b = .ok (a - b) := if_pos h

theorem splitAt_ok {xs : List α} {i : Nat} (h : i ≤ xs.length) : splitAt xs i = .ok (xs.take i, xs.drop i) :=
  if_pos h

theorem splitAt_append (xs ys : List α) : splitAt (xs ++ ys) xs.length = .ok (xs, ys) := by
  rw [splitAt_ok (by simp), List.take_left, List.drop_left]

end Checked

end SlopDesk.Base
