/-
SlopDesk.Base.Disk — files by name, and what open handles write to.

A name is of an inode, and the bytes are the inode's: whoever has opened a
file goes on writing to its inode when the name is taken away or given to
another. No two names are of one inode, and an inode that was never used is
always at hand.

`content` is what a reader finds under a name. Each operation has the lemma
that says what it leaves under every name, and where the names are after it.
-/
import Mathlib.Logic.Function.Basic

namespace SlopDesk.Base

/-- The names and the inodes, each with the time of its last change. -/
structure Disk (ν : Type u) (β : Type v) where
  names : ν → Option Nat
  inodes : Nat → List β
  stamps : Nat → Nat
  fresh : Nat
  names_lt : ∀ {name i}, names name = some i → i < fresh
  names_inj : ∀ {name name' i}, names name = some i → names name' = some i → name = name'

namespace Disk

variable {ν : Type u} {β : Type v}
variable {name name' : ν}
variable (d : Disk ν β)

/-- Without a file. -/
def empty : Disk ν β := ⟨fun _ => none, fun _ => [], fun _ => 0, 0, nofun, nofun⟩

/-- The bytes of a file, if there is one. -/
def read (d : Disk ν β) (name : ν) : Option (List β) := (d.names name).map d.inodes

/-- The bytes under a name: a file that is not there has none. -/
def content (d : Disk ν β) (name : ν) : List β := (d.read name).getD []

/-- The time of a file's last change, if there is one. -/
def stamp (d : Disk ν β) (name : ν) : Option Nat := (d.names name).map d.stamps

/-- Adds to an inode. -/
def append (d : Disk ν β) (i : Nat) (bytes : List β) (now : Nat) : Disk ν β :=
  { d with
    inodes := Function.update d.inodes i (d.inodes i ++ bytes)
    stamps := Function.update d.stamps i now }

theorem content_of_names {d : Disk ν β} {i : Nat} (h : d.names name = some i) :
    d.content name = d.inodes i := by
  simp [content, read, h]

@[simp] theorem names_append (i : Nat) (bytes : List β) (now : Nat) :
    (d.append i bytes now).names = d.names := rfl

variable [DecidableEq ν]

/-- Gives a name to a new inode. -/
def replace (d : Disk ν β) (name : ν) (bytes : List β) (now : Nat) : Disk ν β where
  names := Function.update d.names name (some d.fresh)
  inodes := Function.update d.inodes d.fresh bytes
  stamps := Function.update d.stamps d.fresh now
  fresh := d.fresh + 1
  names_lt := by
    intro name' i h
    by_cases heq : name' = name
    · subst heq
      rw [Function.update_self] at h
      cases h
      exact Nat.lt_succ_self _
    · rw [Function.update_of_ne heq] at h
      exact Nat.lt_succ_of_lt (d.names_lt h)
  names_inj := by
    intro name' name'' i h h'
    by_cases heq : name' = name <;> by_cases heq' : name'' = name
    · rw [heq, heq']
    · subst heq
      rw [Function.update_self] at h
      rw [Function.update_of_ne heq'] at h'
      cases h
      exact absurd (d.names_lt h') (Nat.lt_irrefl _)
    · subst heq'
      rw [Function.update_self] at h'
      rw [Function.update_of_ne heq] at h
      cases h'
      exact absurd (d.names_lt h) (Nat.lt_irrefl _)
    · rw [Function.update_of_ne heq] at h
      rw [Function.update_of_ne heq'] at h'
      exact d.names_inj h h'

/-- Takes a name away. -/
def unlink (d : Disk ν β) (name : ν) : Disk ν β where
  names := Function.update d.names name none
  inodes := d.inodes
  stamps := d.stamps
  fresh := d.fresh
  names_lt := by
    intro name' i h
    by_cases heq : name' = name
    · subst heq
      simp at h
    · rw [Function.update_of_ne heq] at h
      exact d.names_lt h
  names_inj := by
    intro name' name'' i h h'
    by_cases heq : name' = name <;> by_cases heq' : name'' = name
    · rw [heq, heq']
    · subst heq
      simp at h
    · subst heq'
      simp at h'
    · rw [Function.update_of_ne heq] at h
      rw [Function.update_of_ne heq'] at h'
      exact d.names_inj h h'

/-- Opens a file for appending, which makes it where there is none. -/
def openAppend (d : Disk ν β) (name : ν) (now : Nat) : Disk ν β × Nat :=
  match d.names name with
  | some i => (d, i)
  | none => (d.replace name [] now, d.fresh)

/-! ## What is under the names -/

theorem content_append {d : Disk ν β} {i : Nat} (h : d.names name = some i) (bytes : List β) (now : Nat)
    (name' : ν) :
    (d.append i bytes now).content name' = if name' = name then d.content name ++ bytes else d.content name' := by
  split
  case isTrue heq =>
    subst heq
    rw [content_of_names (d := d.append i bytes now) h, content_of_names h]
    exact Function.update_self ..
  case isFalse hne =>
    cases h' : d.names name' with
    | none => simp [content, read, h']
    | some j =>
      have hij : j ≠ i := by
        rintro rfl
        exact hne (d.names_inj h' h)
      rw [content_of_names (d := d.append i bytes now) h', content_of_names h']
      exact Function.update_of_ne hij ..

@[simp] theorem names_replace_self (name : ν) (bytes : List β) (now : Nat) :
    (d.replace name bytes now).names name = some d.fresh := Function.update_self ..

theorem names_replace_of_ne (h : name' ≠ name) (bytes : List β) (now : Nat) :
    (d.replace name bytes now).names name' = d.names name' := Function.update_of_ne h ..

theorem content_replace (name : ν) (bytes : List β) (now : Nat) (name' : ν) :
    (d.replace name bytes now).content name' = if name' = name then bytes else d.content name' := by
  split
  case isTrue heq =>
    subst heq
    rw [content_of_names (names_replace_self d name' bytes now)]
    exact Function.update_self ..
  case isFalse hne =>
    have hnames := names_replace_of_ne d hne bytes now
    cases h' : d.names name' with
    | none => simp [content, read, hnames, h']
    | some j =>
      have hj : j ≠ d.fresh := Nat.ne_of_lt (d.names_lt h')
      rw [content_of_names (hnames.trans h'), content_of_names h']
      exact Function.update_of_ne hj ..

theorem names_unlink_of_ne (h : name' ≠ name) :
    (d.unlink name).names name' = d.names name' := Function.update_of_ne h ..

theorem content_unlink_of_ne (h : name' ≠ name) : (d.unlink name).content name' = d.content name' := by
  simp [content, read, unlink, Function.update_of_ne h]

theorem names_openAppend (name : ν) (now : Nat) :
    (d.openAppend name now).1.names name = some (d.openAppend name now).2 := by
  unfold openAppend
  split
  case h_1 i h => exact h
  case h_2 => exact names_replace_self d name [] now

theorem names_openAppend_of_ne (h : name' ≠ name) (now : Nat) :
    (d.openAppend name now).1.names name' = d.names name' := by
  unfold openAppend
  split
  · rfl
  · exact names_replace_of_ne d h [] now

theorem content_openAppend (name : ν) (now : Nat) (name' : ν) :
    (d.openAppend name now).1.content name' = d.content name' := by
  unfold openAppend
  split
  · rfl
  case h_2 h =>
    rw [content_replace]
    split
    case isTrue heq => simp [heq, content, read, h]
    case isFalse => rfl

end Disk

end SlopDesk.Base
