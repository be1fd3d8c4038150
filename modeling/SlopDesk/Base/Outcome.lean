/-
SlopDesk.Base.Outcome — the result of a call that may answer a value,
report an error, or panic.

A panic is an outcome of its own, so "never panics" is a statement about
values of this type and not a remark about totality. `Agree R x y` is
the relational reading of two outcomes: both succeed with related
values or both report the same error. A panic agrees with nothing, not
even with another panic, which is what lets one relational proof carry
the absence of panics along with it.
-/
namespace SlopDesk.Base

/-- What a fallible call ended in. -/
inductive Outcome (ε : Type u) (α : Type v) where
  | ok (value : α)
  | fault (error : ε)
  | panicked
  deriving DecidableEq, Repr

namespace Outcome

variable {ε : Type u} {α β γ : Type v}
variable {x : Outcome ε α} {R : α → β → Prop} {y : Outcome ε β}

/-- Sequencing: the first outcome that is not a value ends the call. -/
def bind (x : Outcome ε α) (f : α → Outcome ε β) : Outcome ε β :=
  match x with
  | ok a => f a
  | fault e => fault e
  | panicked => panicked

instance : Monad (Outcome ε) where
  pure := ok
  bind := bind

@[simp] theorem pure_eq (a : α) : (pure a : Outcome ε α) = ok a := rfl
@[simp] theorem ok_bind (a : α) (f : α → Outcome ε β) : (ok a >>= f) = f a := rfl
@[simp] theorem fault_bind (e : ε) (f : α → Outcome ε β) : ((fault e : Outcome ε α) >>= f) = fault e := rfl
@[simp] theorem panicked_bind (f : α → Outcome ε β) : ((panicked : Outcome ε α) >>= f) = panicked := rfl

theorem bind_eq_ok {f : α → Outcome ε β} {b : β} : x >>= f = ok b ↔ ∃ a, x = ok a ∧ f a = ok b := by
  cases x <;> simp

/-- Both outcomes are values related by `R`, or both are the same error. -/
def Agree (R : α → β → Prop) : Outcome ε α → Outcome ε β → Prop
  | ok a, ok b => R a b
  | fault e, fault e' => e = e'
  | _, _ => False

@[simp] theorem agree_ok (a : α) (b : β) : Agree (ε := ε) R (ok a) (ok b) ↔ R a b := Iff.rfl
@[simp] theorem agree_fault (e e' : ε) : Agree R (fault e) (fault e') ↔ e = e' := Iff.rfl

theorem Agree.ne_panicked (h : Agree R x y) : y ≠ panicked := by
  rintro rfl
  cases x <;> exact h

theorem Agree.cases (h : Agree R x y) :
    (∃ a b, x = ok a ∧ y = ok b ∧ R a b) ∨ ∃ e, x = fault e ∧ y = fault e := by
  match x, y with
  | ok a, ok b => exact .inl ⟨a, b, rfl, rfl, h⟩
  | fault e, fault e' => exact .inr ⟨e, rfl, by rw [show e = e' from h]⟩

theorem Agree.bind {α' β' : Type v} {S : α' → β' → Prop} {f : α → Outcome ε α'} {g : β → Outcome ε β'}
    (h : Agree R x y) (hfg : ∀ a b, R a b → Agree S (f a) (g b)) : Agree S (x >>= f) (y >>= g) := by
  match x, y with
  | ok a, ok b => exact hfg a b h
  | fault _, fault _ => exact h

end Outcome

end SlopDesk.Base
