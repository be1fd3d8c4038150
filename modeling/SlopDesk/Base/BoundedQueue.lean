/-
SlopDesk.Base.BoundedQueue — a queue of bounded length that forgets its
oldest member, and the circular buffer that implements it.

§1 the queue: `push cap q x` drops the front once `q` holds `cap`
members, so what is held is always the latest `cap` of everything pushed
(`pushAll_latest`). §2 the buffer: slots filled in order and then
overwritten from `head` on; read from `head` round to `head` it is the
queue (`inOrder_overwrite`).
-/
import Mathlib.Data.List.Dedup
import Mathlib.Data.List.Perm.Subperm

namespace SlopDesk.Base

namespace BoundedQueue

variable {α : Type u}
variable {cap : Nat} {history : List α}

/-! ## §1 The queue -/

/-- One more member at the back; the front goes when the queue is full. -/
def push (cap : Nat) (q : List α) (x : α) : List α :=
  if q.length < cap then q ++ [x] else q.tail ++ [x]

/-- The last `cap` members of a list. -/
def latest (cap : Nat) (history : List α) : List α := history.drop (history.length - cap)

theorem latest_of_length_le (h : history.length ≤ cap) : latest cap history = history := by
  simp [latest, Nat.sub_eq_zero_of_le h]

theorem length_latest (cap : Nat) (history : List α) :
    (latest cap history).length = min cap history.length := by
  simp [latest]
  omega

theorem latest_sublist (cap : Nat) (history : List α) :
    (latest cap history).Sublist history := List.drop_sublist ..

theorem push_latest (hcap : 0 < cap) (history : List α) (x : α) :
    push cap (latest cap history) x = latest cap (history ++ [x]) := by
  unfold push
  split
  · grind [length_latest, latest_of_length_le]
  · rename_i h
    rw [length_latest] at h
    have hcut : (history ++ [x]).length - cap = history.length - cap + 1 := by simp; omega
    unfold latest
    rw [hcut, List.drop_append_of_le_length (by omega), List.tail_drop]

/-- Pushing a whole list, front to back. -/
def pushAll (cap : Nat) (q : List α) (xs : List α) : List α := xs.foldl (push cap) q

theorem pushAll_latest (hcap : 0 < cap) (history xs : List α) :
    pushAll cap (latest cap history) xs = latest cap (history ++ xs) := by
  induction xs generalizing history with
  | nil => simp [pushAll]
  | cons x xs ih =>
    calc pushAll cap (latest cap history) (x :: xs)
      _ = pushAll cap (push cap (latest cap history) x) xs := rfl
      _ = pushAll cap (latest cap (history ++ [x])) xs := by rw [push_latest hcap]
      _ = latest cap (history ++ x :: xs) := by rw [ih]; simp

theorem mem_latest_append {xs : List α} {x : α} (hx : xs.length < cap) :
    x ∈ latest cap (history ++ x :: xs) := by
  have hle : (history ++ x :: xs).length - cap ≤ history.length := by simp; omega
  unfold latest
  rw [List.drop_append_of_le_length hle]
  simp

theorem latest_append_sublist (cap : Nat) (history xs : List α) :
    (latest cap xs).Sublist (latest cap (history ++ xs)) := by
  unfold latest
  rw [List.drop_append, List.length_append]
  refine List.Sublist.trans ?_ (List.sublist_append_right ..)
  rw [show history.length + xs.length - cap - history.length = xs.length - cap by omega]

/-- If the latest part repeats nothing, a list of at least `cap` members
has at least `cap` different ones. -/
theorem le_length_dedup [DecidableEq α] (hnodup : (latest cap history).Nodup) (hlen : cap ≤ history.length) :
    cap ≤ history.dedup.length := by
  have hsub : latest cap history ⊆ history.dedup := by
    intro x hx
    exact List.mem_dedup.mpr ((latest_sublist cap history).subset hx)
  calc cap = (latest cap history).length := by rw [length_latest]; omega
    _ ≤ history.dedup.length := (List.Nodup.subperm hnodup hsub).length_le

theorem mem_push {q : List α} {x y : α} (h : y ∈ push cap q x) : y ∈ q ∨ y = x := by
  unfold push at h
  split at h
  · simpa using h
  · rcases List.mem_append.mp h with hy | hy
    · exact .inl (List.mem_of_mem_tail hy)
    · exact .inr (by simpa using hy)

/-! ## §2 The circular buffer -/

/-- The slots read from `head` round to `head`. -/
def inOrder (slots : List α) (head : Nat) : List α := slots.drop head ++ slots.take head

@[simp] theorem inOrder_zero (slots : List α) : inOrder slots 0 = slots := by simp [inOrder]

@[simp] theorem length_inOrder (slots : List α) (head : Nat) :
    (inOrder slots head).length = slots.length := by
  simp [inOrder]
  omega

theorem inOrder_perm (slots : List α) (head : Nat) : (inOrder slots head).Perm slots :=
  List.perm_append_comm.trans (.of_eq (List.take_append_drop head slots))

theorem inOrder_eq_cons {slots : List α} {head : Nat} (h : head < slots.length) :
    inOrder slots head = slots[head] :: (slots.drop (head + 1) ++ slots.take head) := by
  unfold inOrder
  rw [List.drop_eq_getElem_cons h, List.cons_append]

/-- Overwriting that slot and stepping the head round drops the oldest
member and puts the new one at the back. -/
theorem inOrder_overwrite {slots : List α} {head : Nat} (h : head < slots.length) (x : α) :
    inOrder (slots.set head x) (if head + 1 = slots.length then 0 else head + 1) =
      (inOrder slots head).tail ++ [x] := by
  have htake : (slots.set head x).take (head + 1) = slots.take head ++ [x] := by
    rw [List.set_eq_take_append_cons_drop, if_pos h]
    simp [List.take_append, Nat.min_eq_left (Nat.le_of_lt h), List.take_take]
  rw [inOrder_eq_cons h, List.tail_cons]
  split
  · have hall : (slots.set head x).take (head + 1) = slots.set head x :=
      List.take_of_length_le (by simp; omega)
    have hnone : slots.drop (head + 1) = [] := List.drop_eq_nil_of_le (by omega)
    rw [inOrder_zero, ← hall, htake, hnone, List.nil_append]
  · unfold inOrder
    rw [htake, List.drop_set_of_lt (by omega), List.append_assoc]

end BoundedQueue

end SlopDesk.Base
