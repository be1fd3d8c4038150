/-
SlopDesk.Base.Placed — pieces of a stream and where they sit.

`Placed stream offset piece` says that `piece` is what `stream` holds from
`offset` on, for as long as it lasts; a longer stream keeps it true.
`Flows stream a pieces b` is a run of placed pieces that overlap or touch:
a reader that has everything before `a`, and cuts what it has off the front
of each piece, has everything before `b` at the end.
-/
namespace SlopDesk.Base

variable {α : Type u} {stream : List α}

/-- `piece` sits in `stream` at `offset`. -/
def Placed (stream : List α) (offset : Nat) (piece : List α) : Prop :=
  offset ≤ stream.length ∧ piece <+: stream.drop offset

namespace Placed

variable {offset : Nat} {piece : List α}

theorem nil (h : offset ≤ stream.length) : Placed stream offset [] := ⟨h, List.nil_prefix⟩

theorem drop (h : offset ≤ stream.length) : Placed stream offset (stream.drop offset) :=
  ⟨h, List.prefix_refl _⟩

section

variable (h : Placed stream offset piece)
include h

theorem end_le : offset + piece.length ≤ stream.length := by
  have hlength := h.2.length_le
  have hle := h.1
  rw [List.length_drop] at hlength
  omega

theorem grow (more : List α) : Placed (stream ++ more) offset piece := by
  refine ⟨by rw [List.length_append]; exact Nat.le_add_right_of_le h.1, ?_⟩
  rw [List.drop_append_of_le_length h.1]
  exact h.2.trans (List.prefix_append ..)

theorem eq_drop (hend : offset + piece.length = stream.length) : piece = stream.drop offset := by
  refine h.2.eq_of_length ?_
  rw [List.length_drop]
  omega

theorem skip {n : Nat} (hn : n ≤ piece.length) : Placed stream (offset + n) (piece.drop n) := by
  have hend := h.end_le
  obtain ⟨after, hafter⟩ := h.2
  refine ⟨by omega, after, ?_⟩
  rw [← List.drop_drop, ← hafter, List.drop_append_of_le_length hn]

theorem join {next : List α}
    (hnext : Placed stream (offset + piece.length) next) : Placed stream offset (piece ++ next) := by
  refine ⟨h.1, ?_⟩
  have hpiece : (stream.drop offset).take piece.length = piece := List.prefix_iff_eq_take.mp h.2 |>.symm
  rw [← List.take_append_drop piece.length (stream.drop offset), hpiece, List.drop_drop]
  exact List.prefix_append_right_inj piece |>.mpr hnext.2

end

theorem split {next : List α} (h : Placed stream offset (piece ++ next)) :
    Placed stream offset piece ∧ Placed stream (offset + piece.length) next := by
  refine ⟨⟨h.1, (List.prefix_append ..).trans h.2⟩, ?_⟩
  have hskip := h.skip (n := piece.length) (by simp)
  rwa [List.drop_left] at hskip

/-- What a piece holds beyond one that starts before it carries that one
on. -/
theorem extend {start : Nat} {got : List α} (hgot : Placed stream start got)
    (h : Placed stream offset piece) (hle : offset ≤ start + got.length) :
    Placed stream start (got ++ piece.drop (start + got.length - offset)) ∧
    start + (got ++ piece.drop (start + got.length - offset)).length
      = max (start + got.length) (offset + piece.length) := by
  rw [List.length_append, List.length_drop]
  refine ⟨?_, by omega⟩
  by_cases hnew : start + got.length - offset ≤ piece.length
  case pos =>
    apply hgot.join
    have hskip := h.skip hnew
    rwa [show offset + (start + got.length - offset) = start + got.length by omega] at hskip
  case neg =>
    rw [List.drop_eq_nil_of_le (by omega), List.append_nil]
    exact hgot

end Placed

/-- A run of placed pieces, each starting no later than where the reader has
got to. -/
def Flows (stream : List α) : Nat → List (Nat × List α) → Nat → Prop
  | a, [], b => a = b
  | a, (offset, piece) :: rest, b =>
    offset ≤ a ∧ Placed stream offset piece ∧ Flows stream (max a (offset + piece.length)) rest b

namespace Flows

variable {a b : Nat} {pieces : List (Nat × List α)}

section

variable (h : Flows stream a pieces b)
include h

theorem grow (more : List α) : Flows (stream ++ more) a pieces b := by
  induction pieces generalizing a with
  | nil => exact h
  | cons piece rest ih => exact ⟨h.1, h.2.1.grow more, ih h.2.2⟩

theorem le : a ≤ b := by
  induction pieces generalizing a with
  | nil => exact Nat.le_of_eq h
  | cons piece rest ih => exact Nat.le_trans (Nat.le_max_left ..) (ih h.2.2)

theorem append {c : Nat} {more : List (Nat × List α)}
    (hmore : Flows stream b more c) : Flows stream a (pieces ++ more) c := by
  induction pieces generalizing a with
  | nil =>
    obtain rfl : a = b := h
    exact hmore
  | cons piece rest ih => exact ⟨h.1, h.2.1, ih h.2.2⟩

theorem ahead {a' : Nat} (hle : a ≤ a') (hend : a' ≤ b) :
    Flows stream a' pieces b := by
  induction pieces generalizing a a' with
  | nil => exact Nat.le_antisymm hend (h ▸ hle)
  | cons piece rest ih =>
    have hrest := h.2.2.le
    exact ⟨Nat.le_trans h.1 hle, h.2.1, ih h.2.2 (by omega) (by omega)⟩

end

end Flows

end SlopDesk.Base
