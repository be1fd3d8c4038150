/-
SlopDesk.Base.Parser — a forward-only cursor parser over a list, with the
rules its proofs are written in.

A `Parser` reads an immutable input at an offset and answers an
`Outcome` together with the offset after what it read. Two judgements
are enough for every codec proof built on it:

* `ReadsTo p bs Q` — wherever `bs` sits in the input, `p` started at its
  first element consumes exactly `bs` and answers something satisfying
  `Q`; `Reads p bs a` when that is `a`. The `Rest` forms are for a
  parser that consumes everything that is left.
* `Refuses p bs` — wherever `bs` sits in the input, `p` started at its
  first element reports an error.
* `Agree R p q` — started at the same offset inside the input, the two
  parsers fail with the same error or succeed with related answers at
  the same offset, still inside the input. `Safe p` is `p` agreeing
  with itself: no run of it panics.
-/
import SlopDesk.Base.Outcome

namespace SlopDesk.Base

/-- A parser over `List β`: the input and the offset of the next read to
an answer and the offset after it. -/
structure Parser (ε β α : Type) where
  run : List β → Nat → Outcome ε (α × Nat)

namespace Parser

variable {ε β α γ δ : Type}
variable {Q : α → Prop} {a : α} {bs cs : List β} {p : Parser ε β α} {f : α → Parser ε β γ}
variable {R : List β → α → γ → Prop}

/-- Answer `a`, reading nothing. -/
def succeed (a : α) : Parser ε β α := ⟨fun _ off => .ok (a, off)⟩

/-- Fail with `e`. -/
def throw (e : ε) : Parser ε β α := ⟨fun _ _ => .fault e⟩

/-- Read with `p`, then with the parser its answer selects. -/
def andThen (p : Parser ε β α) (f : α → Parser ε β γ) : Parser ε β γ :=
  ⟨fun data off => p.run data off >>= fun r => (f r.1).run data r.2⟩

instance : Monad (Parser ε β) where
  pure := succeed
  bind := andThen

@[simp] theorem run_pure (a : α) (data : List β) (off : Nat) :
    (pure a : Parser ε β α).run data off = .ok (a, off) := rfl
@[simp] theorem run_bind (p : Parser ε β α) (f : α → Parser ε β γ) (data : List β) (off : Nat) :
    (p >>= f).run data off = p.run data off >>= fun r => (f r.1).run data r.2 := rfl

/-! ## Reading a known prefix -/

/-- Wherever `bs` sits in the input, `p` consumes exactly it and answers a
value satisfying `Q`. -/
def ReadsTo (p : Parser ε β α) (bs : List β) (Q : α → Prop) : Prop :=
  ∀ pre post, ∃ a, Q a ∧
    p.run (pre ++ (bs ++ post)) pre.length = .ok (a, pre.length + bs.length)

/-- Wherever `bs` sits in the input, `p` consumes exactly it and answers `a`. -/
abbrev Reads (p : Parser ε β α) (bs : List β) (a : α) : Prop := ReadsTo p bs fun x => x = a

/-- When `bs` is everything left, `p` consumes it all. -/
def ReadsRestTo (p : Parser ε β α) (bs : List β) (Q : α → Prop) : Prop :=
  ∀ pre, ∃ a, Q a ∧ p.run (pre ++ bs) pre.length = .ok (a, pre.length + bs.length)

/-- When `bs` is everything left, `p` consumes it all and answers `a`. -/
abbrev ReadsRest (p : Parser ε β α) (bs : List β) (a : α) : Prop := ReadsRestTo p bs fun x => x = a

theorem reads_pure (h : Q a) : ReadsTo (pure a : Parser ε β α) [] Q := by
  intro pre post
  exact ⟨a, h, by simp⟩

theorem readsRest_pure (a : α) : ReadsRest (pure a : Parser ε β α) [] a := by
  intro pre
  exact ⟨a, rfl, by simp⟩

theorem ReadsTo.rest (h : ReadsTo p bs Q) : ReadsRestTo p bs Q := by
  intro pre
  simpa using h pre []

theorem Reads.bind {Q : γ → Prop} (hp : Reads p bs a) (hf : ReadsTo (f a) cs Q) :
    ReadsTo (p >>= f) (bs ++ cs) Q := by
  intro pre post
  obtain ⟨_, rfl, h1⟩ := hp pre (cs ++ post)
  obtain ⟨c, hc, h2⟩ := hf (pre ++ bs) post
  refine ⟨c, hc, ?_⟩
  simp only [List.append_assoc, List.length_append] at h1 h2 ⊢
  simp only [run_bind, h1, Outcome.ok_bind, h2, Nat.add_assoc]

theorem Reads.bindRest {Q : γ → Prop} (hp : Reads p bs a) (hf : ReadsRestTo (f a) cs Q) :
    ReadsRestTo (p >>= f) (bs ++ cs) Q := by
  intro pre
  obtain ⟨_, rfl, h1⟩ := hp pre cs
  obtain ⟨c, hc, h2⟩ := hf (pre ++ bs)
  refine ⟨c, hc, ?_⟩
  simp only [List.append_assoc, List.length_append] at h1 h2 ⊢
  simp only [run_bind, h1, Outcome.ok_bind, h2, Nat.add_assoc]

theorem ReadsTo.map {f : α → γ} {S : γ → Prop} (hp : ReadsTo p bs Q) (h : ∀ a, Q a → S (f a)) :
    ReadsTo (p >>= fun a => pure (f a)) bs S := by
  intro pre post
  obtain ⟨a, ha, hrun⟩ := hp pre post
  exact ⟨f a, h a ha, by simp [hrun]⟩

theorem ReadsRestTo.map {f : α → γ} {S : γ → Prop} (hp : ReadsRestTo p bs Q) (h : ∀ a, Q a → S (f a)) :
    ReadsRestTo (p >>= fun a => pure (f a)) bs S := by
  intro pre
  obtain ⟨a, ha, hrun⟩ := hp pre
  exact ⟨f a, h a ha, by simp [hrun]⟩

theorem Reads.answer {f : α → γ} {c : γ}
    (hp : Reads p bs a) (h : f a = c) : Reads (p >>= fun x => pure (f x)) bs c :=
  hp.map fun x hx => by rw [hx, h]

theorem ReadsRest.answer {f : α → γ} {c : γ}
    (hp : ReadsRest p bs a) (h : f a = c) : ReadsRest (p >>= fun x => pure (f x)) bs c :=
  hp.map fun x hx => by rw [hx, h]

/-! ## Refusing a known prefix -/

/-- Wherever `bs` sits in the input, `p` reports an error. -/
def Refuses (p : Parser ε β α) (bs : List β) : Prop :=
  ∀ pre post, ∃ e, p.run (pre ++ (bs ++ post)) pre.length = .fault e

theorem refuses_throw (e : ε) (bs : List β) : Refuses (throw e : Parser ε β α) bs :=
  fun _ _ => ⟨e, rfl⟩

theorem Refuses.append (h : Refuses p bs) (cs : List β) : Refuses p (bs ++ cs) := by
  intro pre post
  rw [List.append_assoc]
  exact h pre (cs ++ post)

theorem Refuses.bind (h : Refuses p bs) : Refuses (p >>= f) bs := by
  intro pre post
  obtain ⟨e, hrun⟩ := h pre post
  exact ⟨e, by rw [run_bind, hrun, Outcome.fault_bind]⟩

theorem Reads.bindRefuses (hp : Reads p bs a) (hf : Refuses (f a) cs) : Refuses (p >>= f) (bs ++ cs) := by
  intro pre post
  obtain ⟨_, rfl, hread⟩ := hp pre (cs ++ post)
  obtain ⟨e, hrun⟩ := hf (pre ++ bs) post
  simp only [List.append_assoc, List.length_append] at hread hrun ⊢
  exact ⟨e, by rw [run_bind, hread, Outcome.ok_bind, hrun]⟩

/-! ## Two parsers side by side -/

/-- Started at the same offset inside the input, `p` and `q` fail alike or
succeed at the same offset, still inside it, with answers `R` relates. -/
def Agree (R : List β → α → γ → Prop) (p : Parser ε β α) (q : Parser ε β γ) : Prop :=
  ∀ data off, off ≤ data.length →
    Outcome.Agree (fun x y => x.2 = y.2 ∧ x.2 ≤ data.length ∧ R data x.1 y.1)
      (p.run data off) (q.run data off)

/-- No run of `p` inside the input panics or leaves it. -/
def Safe (p : Parser ε β α) : Prop := Agree (fun _ a b => a = b) p p

theorem agree_pure {b : γ} (h : ∀ data, R data a b) : Agree R (pure a : Parser ε β α) (pure b) := by
  intro data off hoff
  exact ⟨rfl, hoff, h data⟩

theorem safe_pure (a : α) : Safe (pure a : Parser ε β α) := agree_pure fun _ => rfl

theorem agree_throw (e : ε) : Agree R (throw e : Parser ε β α) (throw e) := by
  intro data off _
  rfl

theorem safe_throw (e : ε) : Safe (throw e : Parser ε β α) := agree_throw e

theorem Safe.bind {R : List β → γ → δ → Prop}
    {g : α → Parser ε β δ} (hp : Safe p) (hfg : ∀ a, Agree R (f a) (g a)) :
    Agree R (p >>= f) (p >>= g) := by
  intro data off hoff
  refine Outcome.Agree.bind (hp data off hoff) ?_
  rintro ⟨a, n⟩ ⟨b, m⟩ ⟨hnm, hn, hab⟩
  obtain rfl : n = m := hnm
  obtain rfl : a = b := hab
  exact hfg a data n hn

theorem Agree.map {α' γ' : Type} {S : List β → α' → γ' → Prop}
    {q : Parser ε β γ} (hpq : Agree R p q) {f : α → α'} {g : γ → γ'}
    (h : ∀ data a b, R data a b → S data (f a) (g b)) :
    Agree S (p >>= fun a => pure (f a)) (q >>= fun b => pure (g b)) := by
  intro data off hoff
  refine Outcome.Agree.bind (hpq data off hoff) ?_
  rintro ⟨a, n⟩ ⟨b, m⟩ ⟨hnm, hn, hab⟩
  exact ⟨hnm, hn, h data a b hab⟩

end Parser

end SlopDesk.Base
