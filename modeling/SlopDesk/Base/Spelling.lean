/-
SlopDesk.Base.Spelling — what a parser reads back of what was spelt.
-/
import Mathlib.Computability.Language
import SlopDesk.Base.Parser

/-! # What a parser accepts.

`Reads` says that a parser reads one input to one value. The judgements
here say which inputs it reads at all:

* `Spells p G` — `p` reads the inputs `G` relates to a value, wherever they
  sit, to that value; whatever it answers is spelled by what it consumed;
  and no run of it panics.
* `Ends p G` — the same of a parser that answers only once nothing is left.

A parser reads forward and never looks back, so the spellings of one that
`Spells` are prefix-free.
-/

namespace SlopDesk.Base.Parser

variable {ε β α γ : Type}
variable {G H : α → List β → Prop} {p : Parser ε β α} {f : α → Parser ε β γ}

/-- The spellings of one thing, and then those of another. -/
def Followed (G : α → List β → Prop) (H : α → γ → List β → Prop) (c : γ) (bs : List β) : Prop :=
  ∃ a xs ys, G a xs ∧ H a c ys ∧ bs = xs ++ ys

/-- The inputs that spell something. -/
def spellings (G : α → List β → Prop) : Language β :=
  ({bs | ∃ a, G a bs} : Set (List β))

/-! ## Prefix-free languages -/

/-- No member begins another. -/
def PrefixFree (L : Language β) : Prop := ∀ xs ys, xs ∈ L → xs ++ ys ∈ L → ys = []

theorem PrefixFree.mono {L M : Language β} (hM : PrefixFree M) (h : ∀ bs ∈ L, bs ∈ M) : PrefixFree L :=
  fun xs ys hxs hmore => hM xs ys (h xs hxs) (h (xs ++ ys) hmore)

/-! ## Parsers of a part of the input -/

/-- `p` reads the spellings of `G` and nothing else. -/
structure Spells (p : Parser ε β α) (G : α → List β → Prop) : Prop where
  reads : ∀ a bs, G a bs → Reads p bs a
  spelled : ∀ pre rest a stop, p.run (pre ++ rest) pre.length = .ok (a, stop) →
    ∃ bs post, rest = bs ++ post ∧ stop = pre.length + bs.length ∧ G a bs
  safe : Safe p

theorem spells_pure (a : α) : Spells (pure a : Parser ε β α) fun x bs => x = a ∧ bs = [] where
  reads := by
    rintro _ _ ⟨rfl, rfl⟩
    exact reads_pure rfl
  spelled pre rest x stop h := by
    obtain ⟨rfl, rfl⟩ := Prod.mk.inj (Outcome.ok.inj h)
    exact ⟨[], rest, rfl, rfl, rfl, rfl⟩
  safe := safe_pure a

theorem spells_throw (e : ε) : Spells (throw e : Parser ε β α) fun _ _ => False where
  reads _ _ h := h.elim
  spelled _ _ _ _ h := by cases h
  safe := safe_throw e

theorem Spells.congr (h : Spells p G) (hGH : ∀ a bs, G a bs ↔ H a bs) : Spells p H := by
  obtain rfl : G = H := funext fun a => funext fun bs => propext (hGH a bs)
  exact h

theorem run_bind_ok {data : List β} {off stop : Nat} {c : γ} (h : (p >>= f).run data off = .ok (c, stop)) :
    ∃ a mid, p.run data off = .ok (a, mid) ∧ (f a).run data mid = .ok (c, stop) := by
  obtain ⟨⟨a, mid⟩, ha, hc⟩ := Outcome.bind_eq_ok.mp h
  exact ⟨a, mid, ha, hc⟩

theorem Spells.bind {H : α → γ → List β → Prop} (hp : Spells p G) (hf : ∀ a, Spells (f a) (H a)) :
    Spells (p >>= f) (Followed G H) where
  reads := by
    rintro c _ ⟨a, xs, ys, hxs, hys, rfl⟩
    exact Reads.bind (hp.reads a xs hxs) ((hf a).reads c ys hys)
  spelled pre rest c stop h := by
    obtain ⟨a, mid, ha, hc⟩ := run_bind_ok h
    obtain ⟨xs, post, rfl, rfl, hxs⟩ := hp.spelled pre rest a mid ha
    rw [← List.append_assoc, ← List.length_append] at hc
    obtain ⟨ys, post', rfl, rfl, hys⟩ := (hf a).spelled (pre ++ xs) post c stop hc
    exact ⟨xs ++ ys, post', by simp, by simp [Nat.add_assoc], a, xs, ys, hxs, hys, rfl⟩
  safe := hp.safe.bind fun a => (hf a).safe

theorem Spells.map (hp : Spells p G) (f : α → γ) :
    Spells (p >>= fun a => pure (f a)) fun c bs => ∃ a, G a bs ∧ c = f a := by
  refine (hp.bind fun a => spells_pure (f a)).congr fun c bs => ?_
  constructor
  · rintro ⟨a, xs, ys, hxs, ⟨rfl, rfl⟩, rfl⟩
    rw [List.append_nil]
    exact ⟨a, hxs, rfl⟩
  · rintro ⟨a, hbs, rfl⟩
    exact ⟨a, bs, [], hbs, ⟨rfl, rfl⟩, by simp⟩

theorem Spells.ite {q : Parser ε β α} {c : Prop} [Decidable c] (hp : c → Spells p G) (hq : ¬ c → Spells q H) :
    Spells (if c then p else q) fun a bs => c ∧ G a bs ∨ ¬ c ∧ H a bs := by
  by_cases hc : c
  · rw [if_pos hc]
    exact (hp hc).congr fun a bs => by simp [hc]
  · rw [if_neg hc]
    exact (hq hc).congr fun a bs => by simp [hc]

theorem Spells.unless {c : Prop} [Decidable c] (e : ε)
    (hp : ¬ c → Spells p G) : Spells (if c then throw e else p) fun a bs => ¬ c ∧ G a bs :=
  (Spells.ite (fun _ => spells_throw e) hp).congr fun a bs => by simp

/-- What a parser reads is prefix-free: on a spelling and what follows it,
its one run stops at the end of the spelling. -/
theorem Spells.prefixFree (hp : Spells p G) : PrefixFree (spellings G) := by
  rintro bs rest ⟨a, hbs⟩ ⟨a', hmore⟩
  obtain ⟨_, rfl, hshort⟩ := hp.reads a bs hbs [] rest
  obtain ⟨_, rfl, hlong⟩ := hp.reads a' (bs ++ rest) hmore [] []
  rw [List.append_nil, hshort] at hlong
  have hlength := (Prod.mk.inj (Outcome.ok.inj hlong)).2
  rw [List.length_append] at hlength
  exact List.eq_nil_of_length_eq_zero (by omega)

/-! ## Parsers of all that is left -/

/-- `p`, on all that is left of the input, reads the spellings of `G` and
nothing else. -/
structure Ends (p : Parser ε β α) (G : α → List β → Prop) : Prop where
  reads : ∀ a bs, G a bs → ReadsRest p bs a
  spelled : ∀ pre rest a stop, p.run (pre ++ rest) pre.length = .ok (a, stop) → G a rest
  safe : Safe p

theorem Ends.congr (h : Ends p G) (hGH : ∀ a bs, G a bs ↔ H a bs) : Ends p H := by
  obtain rfl : G = H := funext fun a => funext fun bs => propext (hGH a bs)
  exact h

theorem Spells.ends {H : α → γ → List β → Prop} (hp : Spells p G) (hf : ∀ a, Ends (f a) (H a)) :
    Ends (p >>= f) (Followed G H) where
  reads := by
    rintro c _ ⟨a, xs, ys, hxs, hys, rfl⟩
    exact Reads.bindRest (hp.reads a xs hxs) ((hf a).reads c ys hys)
  spelled pre rest c stop h := by
    obtain ⟨a, mid, ha, hc⟩ := run_bind_ok h
    obtain ⟨xs, post, rfl, rfl, hxs⟩ := hp.spelled pre rest a mid ha
    rw [← List.append_assoc, ← List.length_append] at hc
    exact ⟨a, xs, post, hxs, (hf a).spelled (pre ++ xs) post c stop hc, rfl⟩
  safe := hp.safe.bind fun a => (hf a).safe

theorem Ends.run_iff (h : Ends p G) {data : List β} {a : α} :
    (∃ stop, p.run data 0 = .ok (a, stop)) ↔ G a data := by
  constructor
  · rintro ⟨stop, hrun⟩
    exact h.spelled [] data a stop hrun
  · intro hdata
    obtain ⟨_, rfl, hrun⟩ := h.reads a data hdata []
    exact ⟨_, hrun⟩

end SlopDesk.Base.Parser
