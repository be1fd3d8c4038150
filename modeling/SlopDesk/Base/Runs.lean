/-
SlopDesk.Base.Runs — runs of a step relation, and of a step that writes.
-/

/-! # Runs of a state machine given as a step function,
and the induction rules over them.

A run is a list of operations; `run step s ops` is the state it ends in.
`Meets step ok s ops` says that `ok` holds of every operation in the
state it is applied to, which is how a side condition on the steps of a
run is stated. `Throughout step P s ops` says that `P` holds of every
state the run passes through, the first and the last included.
-/

namespace SlopDesk.Base

variable {σ : Type u} {ω : Type v} {step : σ → ω → σ}
variable {s : σ} {ok : σ → ω → Prop} {ops : List ω} {allowed : ω → Prop} {P : σ → Prop}
variable {ok' : σ → ω → Prop} {Q Inv : σ → Prop}

/-- The state after a list of operations. -/
def run (step : σ → ω → σ) (s : σ) (ops : List ω) : σ := ops.foldl step s

@[simp] theorem run_nil (s : σ) : run step s [] = s := rfl
@[simp] theorem run_cons (s : σ) (op : ω) (ops : List ω) :
    run step s (op :: ops) = run step (step s op) ops := rfl

theorem run_append (s : σ) (ops ops' : List ω) :
    run step s (ops ++ ops') = run step (run step s ops) ops' := List.foldl_append

theorem run_invariant (Inv : σ → Prop) (hstep : ∀ s op, Inv s → Inv (step s op))
    (h : Inv s) (ops : List ω) : Inv (run step s ops) := by
  induction ops generalizing s with
  | nil => exact h
  | cons op ops ih => exact ih (hstep s op h)

/-- `ok` holds of every operation of the run, in the state before it. -/
def Meets (step : σ → ω → σ) (ok : σ → ω → Prop) (s : σ) : List ω → Prop
  | [] => True
  | op :: ops => ok s op ∧ Meets step ok (step s op) ops

instance decidableMeets {ok : σ → ω → Prop} [∀ s op, Decidable (ok s op)] :
    (s : σ) → (ops : List ω) → Decidable (Meets step ok s ops)
  | _, [] => .isTrue trivial
  | s, op :: ops =>
    have : Decidable (Meets step ok (step s op) ops) := decidableMeets (step s op) ops
    inferInstanceAs (Decidable (ok s op ∧ Meets step ok (step s op) ops))

theorem meets_of_decide (dec : ∀ s op, Decidable (ok s op))
    (h : @decide (Meets step ok s ops) (decidableMeets s ops) = true) : Meets step ok s ops :=
  of_decide_eq_true h

theorem meets_append {ops' : List ω} :
    Meets step ok s (ops ++ ops') ↔ Meets step ok s ops ∧ Meets step ok (run step s ops) ops' := by
  induction ops generalizing s with
  | nil => simp [Meets]
  | cons op ops ih => simp only [List.cons_append, Meets, run_cons, ih, and_assoc]

theorem Meets.and (h : Meets step ok s ops)
    (h' : Meets step ok' s ops) : Meets step (fun s op => ok s op ∧ ok' s op) s ops := by
  induction ops generalizing s with
  | nil => exact trivial
  | cons op ops ih => exact ⟨⟨h.1, h'.1⟩, ih h.2 h'.2⟩

theorem meets_of_forall (h : ∀ op ∈ ops, allowed op) (s : σ) :
    Meets step (fun _ op => allowed op) s ops := by
  induction ops generalizing s with
  | nil => exact trivial
  | cons op ops ih =>
    exact ⟨h op (List.mem_cons_self ..), ih (fun op' hop' => h op' (List.mem_cons_of_mem _ hop')) _⟩

theorem Meets.invariant (Inv : σ → Prop) (hstep : ∀ s op, ok s op → Inv s → Inv (step s op))
    (hok : Meets step ok s ops) (h : Inv s) : Inv (run step s ops) := by
  induction ops generalizing s with
  | nil => exact h
  | cons op ops ih => exact ih hok.2 (hstep s op hok.1 h)

theorem Meets.weaken (Inv : σ → Prop) (himp : ∀ s op, ok s op → Inv s → ok' s op ∧ Inv (step s op))
    (hok : Meets step ok s ops) (h : Inv s) : Meets step ok' s ops := by
  induction ops generalizing s with
  | nil => exact trivial
  | cons op ops ih =>
    obtain ⟨hop, hnext⟩ := himp s op hok.1 h
    exact ⟨hop, ih hok.2 hnext⟩

/-- `P` holds of every state the run passes through. -/
def Throughout (step : σ → ω → σ) (P : σ → Prop) (s : σ) : List ω → Prop
  | [] => P s
  | op :: ops => P s ∧ Throughout step P (step s op) ops

theorem Throughout.last (h : Throughout step P s ops) : P (run step s ops) := by
  induction ops generalizing s with
  | nil => exact h
  | cons op ops ih => exact ih h.2

theorem Throughout.imp (himp : ∀ s, P s → Q s) (h : Throughout step P s ops) : Throughout step Q s ops := by
  induction ops generalizing s with
  | nil => exact himp s h
  | cons op ops ih => exact ⟨himp s h.1, ih h.2⟩

theorem Meets.throughout (Inv : σ → Prop) (hstep : ∀ s op, ok s op → Inv s → Inv (step s op))
    (hok : Meets step ok s ops) (h : Inv s) : Throughout step Inv s ops := by
  induction ops generalizing s with
  | nil => exact h
  | cons op ops ih => exact ⟨h, ih hok.2 (hstep s op hok.1 h)⟩

/-- Two properties that agree wherever an invariant holds hold throughout
the same runs. -/
theorem throughout_congr
    (hinv : ∀ s op, allowed op → Inv s → Inv (step s op)) (hiff : ∀ s, Inv s → (P s ↔ Q s))
    (hs : Inv s) (hops : ∀ op ∈ ops, allowed op) : Throughout step P s ops ↔ Throughout step Q s ops := by
  induction ops generalizing s with
  | nil => exact hiff s hs
  | cons op ops ih =>
    have hnext := hinv s op (hops op (List.mem_cons_self ..)) hs
    exact and_congr (hiff s hs) (ih hnext fun op' hop' => hops op' (List.mem_cons_of_mem _ hop'))

/-- When a step keeps `P` exactly under its condition, a run stays inside
`P` exactly when its steps meet theirs. -/
theorem throughout_iff_meets (hinv : ∀ s op, allowed op → Inv s → Inv (step s op))
    (hstep : ∀ s op, allowed op → Inv s → P s → (P (step s op) ↔ ok s op)) (hs : Inv s)
    (hP : P s) (hops : ∀ op ∈ ops, allowed op) : Throughout step P s ops ↔ Meets step ok s ops := by
  induction ops generalizing s with
  | nil => exact ⟨fun _ => trivial, fun _ => hP⟩
  | cons op ops ih =>
    have hop := hops op (List.mem_cons_self ..)
    have hrest : ∀ op ∈ ops, allowed op := fun op' hop' => hops op' (List.mem_cons_of_mem _ hop')
    have hiff := hstep s op hop hs hP
    constructor
    · intro h
      have hnext : P (step s op) := by
        cases ops with
        | nil => exact h.2
        | cons _ _ => exact h.2.1
      exact ⟨hiff.mp hnext, (ih (hinv s op hop hs) hnext hrest).mp h.2⟩
    · intro h
      exact ⟨hP, (ih (hinv s op hop hs) (hiff.mpr h.1) hrest).mpr h.2⟩

/-- A rank that no step raises and every counted step lowers, as long as
the goal is not met: a run with enough counted steps meets it on the way. -/
theorem reaches_of_rank (Inv : σ → Prop) (rank : σ → Nat) {Goal : σ → Prop} {counts : ω → Bool}
    (hzero : ∀ s, Inv s → rank s = 0 → Goal s) (hstep : ∀ s op, allowed op → Inv s → ¬ Goal s →
      Inv (step s op) ∧ rank (step s op) + (if counts op then 1 else 0) ≤ rank s)
    (hs : Inv s) (hops : ∀ op ∈ ops, allowed op) (hcount : rank s ≤ ops.countP counts) :
    ∃ k, Goal (run step s (ops.take k)) := by
  induction ops generalizing s with
  | nil => exact ⟨0, hzero s hs (Nat.le_zero.mp hcount)⟩
  | cons op ops ih =>
    by_cases hgoal : Goal s
    case pos => exact ⟨0, hgoal⟩
    case neg =>
      obtain ⟨hinv, hrank⟩ := hstep s op (hops op (List.mem_cons_self ..)) hs hgoal
      have hrest : rank (step s op) ≤ ops.countP counts := by
        rw [List.countP_cons] at hcount
        omega
      obtain ⟨k, hk⟩ := ih hinv (fun op' hop' => hops op' (List.mem_cons_of_mem _ hop')) hrest
      exact ⟨k + 1, hk⟩

end SlopDesk.Base

/-! # Machines that read a symbol at a time and put
something out at each.

`feed step s input` is a machine's reading of an input: the state it ends
in and all it put out. A machine is often given a second reader that takes
whole stretches at once; `feed_chunks` says that a reader that agrees with
`feed` gives the same however the input is cut. `feed_simulates` is the
induction rule for two machines on one input.
-/

namespace SlopDesk.Base

variable {σ : Type u} {τ : Type v} {α : Type w} {β : Type x} {γ : Type y}

/-- The reading of an input, one symbol at a time. -/
def feed (step : σ → α → σ × List β) (s : σ) : List α → σ × List β
  | [] => (s, [])
  | a :: input =>
    let (s, out) := step s a
    let (s, more) := feed step s input
    (s, out ++ more)

/-- The reading of an input that comes in chunks. -/
def feedChunks (read : σ → List α → σ × List β) (s : σ) : List (List α) → σ × List β
  | [] => (s, [])
  | chunk :: chunks =>
    let (s, out) := read s chunk
    let (s, more) := feedChunks read s chunks
    (s, out ++ more)

variable {step : σ → α → σ × List β}
variable {s : σ}

@[simp] theorem feed_nil (s : σ) : feed step s [] = (s, []) := rfl

@[simp] theorem feed_cons (s : σ) (a : α) (input : List α) : feed step s (a :: input) =
    ((feed step (step s a).1 input).1, (step s a).2 ++ (feed step (step s a).1 input).2) := rfl

theorem feed_append (s : σ) (input more : List α) : feed step s (input ++ more) =
    ((feed step (feed step s input).1 more).1,
      (feed step s input).2 ++ (feed step (feed step s input).1 more).2) := by
  induction input generalizing s with
  | nil => simp
  | cons a input ih => simp [ih, List.append_assoc]

theorem feed_singleton (s : σ) (a : α) : feed step s [a] = step s a := by simp

theorem feed_quiet {input : List α} (h : ∀ a ∈ input, step s a = (s, [])) :
    feed step s input = (s, []) := by
  induction input with
  | nil => rfl
  | cons a input ih =>
    have hfirst := h a (List.mem_cons_self ..)
    have hrest := ih fun a' ha' => h a' (List.mem_cons_of_mem _ ha')
    simp [hfirst, hrest]

theorem feedChunks_feed (s : σ) (chunks : List (List α)) :
    feedChunks (feed step) s chunks = feed step s chunks.flatten := by
  induction chunks generalizing s with
  | nil => rfl
  | cons chunk chunks ih => simp [feedChunks, ih, feed_append]

theorem feed_chunks {read : σ → List α → σ × List β} (h : ∀ s chunk, read s chunk = feed step s chunk) (s : σ)
    (chunks : List (List α)) : feedChunks read s chunks = read s chunks.flatten := by
  have hread : read = feed step := funext fun s => funext fun chunk => h s chunk
  rw [hread, feedChunks_feed]

/-- Two machines that keep a relation under every symbol keep it over
every input. -/
theorem feed_simulates {step' : τ → α → τ × List γ} (R : σ → τ → Prop)
    (hstep : ∀ s t a, R s t → R (step s a).1 (step' t a).1) {t : τ} (h : R s t) (input : List α) :
    R (feed step s input).1 (feed step' t input).1 := by
  induction input generalizing s t with
  | nil => exact h
  | cons a input ih => exact ih (hstep s t a h)

theorem feed_invariant (P : σ → Prop) (hstep : ∀ s a, P s → P (step s a).1) (h : P s) (input : List α) :
    P (feed step s input).1 := by
  induction input generalizing s with
  | nil => exact h
  | cons a input ih => exact ih (hstep s a h)

/-- What every symbol keeps of the state and all that came out, every
input keeps. -/
theorem feed_history (P : σ → List β → Prop) (hstep : ∀ s out a, P s out → P (step s a).1 (out ++ (step s a).2))
    {out : List β} (h : P s out) (input : List α) :
    P (feed step s input).1 (out ++ (feed step s input).2) := by
  induction input generalizing s out with
  | nil => simpa using h
  | cons a input ih => simpa [List.append_assoc] using ih (hstep s out a h)

theorem feed_commutes {f : σ → σ} (hstep : ∀ s a, step (f s) a = (f (step s a).1, (step s a).2)) (s : σ)
    (input : List α) : feed step (f s) input = (f (feed step s input).1, (feed step s input).2) := by
  induction input generalizing s with
  | nil => rfl
  | cons a input ih => simp [hstep, ih]

end SlopDesk.Base
