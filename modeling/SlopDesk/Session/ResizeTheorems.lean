/-
SlopDesk.Session.ResizeTheorems — no resize is stranded.

§1 what each section does to the fold: whether it takes a new generation,
whether it can move the target, and what it leaves to be armed. §2 the two
invariants: while a settle is outstanding its timer is on its way, and a
target the PTY does not have has a timer or an apply on its way. §3 runs
of critical sections in any order.
-/
import SlopDesk.Session.ResizeFold

namespace SlopDesk.Session

open SlopDesk.Base

namespace ResizeFold

/-! ## §1 The fold -/

variable {f : ResizeFold}
variable (subscriber : SubscriberId)

/-- A set change: it arms a settle for a generation of its own, or it
leaves the generation and the latch alone. -/
def SetChange (f : ResizeFold) (decided : ArmDecision × ResizeFold) : Prop :=
  (decided.1.armSettle = true ∧ decided.1.generation = decided.2.generation) ∨
    (decided.1.armSettle = false ∧ decided.2.generation = f.generation ∧
      decided.2.settlePending = f.settlePending)

theorem armSettleIfSetChanged_change (contributions : BTreeMap SubscriberId Contribution)
    (before : Nat) : f.SetChange ({ f with contributions }.armSettleIfSetChanged before) := by
  simp only [armSettleIfSetChanged, SetChange]
  split <;> simp

theorem addContributor_change (sizePassive : Bool) : f.SetChange (f.addContributor subscriber sizePassive) :=
  armSettleIfSetChanged_change ..

theorem removeContributor_change : f.SetChange (f.removeContributor subscriber) := by
  unfold removeContributor
  split
  · simp [SetChange]
  · exact armSettleIfSetChanged_change ..

/-- An offer arms a debounce for a generation of its own, or a settle is
outstanding and the generation stays. -/
theorem noteOffer_cases (offer : Grid) : let decided := f.noteOffer subscriber offer
    decided.2.settlePending = f.settlePending ∧
      ((f.settlePending = true ∧ decided.1.armDebounce = false ∧
          decided.2.generation = f.generation) ∨
        (f.settlePending = false ∧ decided.1.armDebounce = true ∧
          decided.1.generation = decided.2.generation)) := by
  -- retiring the override touches neither the latch nor the generation
  cases h : f.settlePending <;>
    simp [noteOffer, apply_ite ResizeFold.settlePending, apply_ite ResizeFold.generation, h]

theorem target_of_empty (hnobody : f.contributions = ∅) (hnone : f.ctlOverride = none) :
    f.target = none := by
  have hnil : (∅ : BTreeMap SubscriberId Contribution).toList = [] := rfl
  simp [target, fold, hnobody, hnone, hnil]

@[simp] theorem target_clearMembers (f : ResizeFold) : f.clearMembers.target = none :=
  target_of_empty rfl rfl

@[simp] theorem generation_clearSettle (f : ResizeFold) (generation : UInt64) :
    (f.clearSettle generation).generation = f.generation := by
  unfold clearSettle
  split <;> rfl

@[simp] theorem target_clearSettle (f : ResizeFold) (generation : UInt64) :
    (f.clearSettle generation).target = f.target := by
  unfold clearSettle
  split <;> rfl

theorem settlePending_clearSettle {generation : UInt64}
    (h : (f.clearSettle generation).settlePending = true) :
    f.settlePending = true ∧ f.generation ≠ generation := by
  unfold clearSettle at h
  split at h
  · simp at h
  · exact ⟨h, ‹_›⟩

theorem resolve_cases (ifGeneration : Option UInt64) :
    (∃ generation, ifGeneration = some generation ∧ generation ≠ f.generation ∧
        f.resolve ifGeneration = (none, f)) ∨
      ((f.resolve ifGeneration).1 = f.target ∧ (f.resolve ifGeneration).2.target = f.target ∧
        (f.resolve ifGeneration).2.generation = f.generation ∧
        (f.resolve ifGeneration).2.settlePending = f.settlePending) := by
  by_cases hstale : ifGeneration.any (· ≠ f.generation)
  · left
    cases ifGeneration with
    | none => simp at hstale
    | some generation => exact ⟨generation, rfl, by simpa using hstale, by simp only [resolve, hstale, if_true]⟩
  · simp only [resolve, hstale]
    cases htarget : f.target with
    | none => simp [htarget]
    | some grid =>
      have hsame : { f with resolved := some grid }.target = f.target := rfl
      simp [hsame, htarget]

end ResizeFold

/-! ## §2 The driver -/

namespace Resize

/-- A body of this timer quoting the fold's generation is on its way: its
arming has still to reach the table, it is in the table, or it is running
and has still to do its first section. -/
def OnItsWay (r : Resize) (timer : Timer) : Prop :=
  (timer, r.fold.generation) ∈ r.arming ∨ r.slots timer = some r.fold.generation ∨
    r.running = some (timer, r.fold.generation)

/-- Between two calls no decision is still to reach the table, no override
still to be applied and no body running. -/
def Idle (r : Resize) : Prop := r.arming = [] ∧ r.applying = 0 ∧ r.running = none

/-- All armed timers have fired. -/
def Fired (r : Resize) : Prop := r.Idle ∧ ∀ timer, r.slots timer = none

instance (r : Resize) : Decidable r.Idle := inferInstanceAs (Decidable (_ ∧ _ ∧ _))

instance (r : Resize) : Decidable r.Fired :=
  decidable_of_iff (r.Idle ∧ r.slots .resize = none ∧ r.slots .settle = none)
    (and_congr_right fun _ => ⟨fun h timer => by cases timer <;> simp [h], fun h => ⟨h _, h _⟩⟩)

/-- The PTY has the target, if there is one. -/
def Landed (r : Resize) : Prop := ∀ grid ∈ r.fold.target, r.windowSize = some grid

/-- An apply or a body that will apply is on its way. -/
def ApplyOnItsWay (r : Resize) : Prop := 0 < r.applying ∨ ∃ timer, r.OnItsWay timer

variable {r : Resize}
variable {owed : Bool}

theorem apply_cases (ifGeneration : Option UInt64) :
    (∃ generation, ifGeneration = some generation ∧ generation ≠ r.fold.generation ∧
        r.apply ifGeneration = r) ∨
      ((r.apply ifGeneration).Landed ∧
        (r.apply ifGeneration).fold.generation = r.fold.generation ∧
        (r.apply ifGeneration).fold.settlePending = r.fold.settlePending ∧
        (r.apply ifGeneration).slots = r.slots ∧ (r.apply ifGeneration).arming = r.arming ∧
        (r.apply ifGeneration).applying = r.applying ∧ (r.apply ifGeneration).running = r.running) := by
  rcases r.fold.resolve_cases ifGeneration with ⟨generation, hsome, hne, hstale⟩ | hresolved
  · exact .inl ⟨generation, hsome, hne, by simp [apply, hstale]⟩
  · obtain ⟨hgrid, htarget, hgeneration, hpending⟩ := hresolved
    unfold apply Landed
    cases hresolve : r.fold.resolve ifGeneration with
    | mk grid fold =>
      grind

/-- The driver, and whether a set change that armed nothing has moved the
target since the last apply. -/
structure Watched where
  resize : Resize
  owed : Bool

/-- Before the first call. -/
def Watched.new (openedSizePassive : Bool) : Watched := ⟨.new openedSizePassive, false⟩

/-- Whether a set change moves the target and arms nothing. -/
def movesUnarmed (r : Resize) (decided : ArmDecision × ResizeFold) : Bool :=
  !decided.1.armSettle && decided.2.target ≠ r.fold.target

/-- Whether an apply is owed after a section. -/
def owes (r : Resize) (owed : Bool) : ResizeStep → Bool
  | .addContributor subscriber sizePassive =>
    owed || r.movesUnarmed (r.fold.addContributor subscriber sizePassive)
  | .removeContributor subscriber => owed || r.movesUnarmed (r.fold.removeContributor subscriber)
  | .applyOverride => owed && r.applying = 0
  | .body => owed && r.running ≠ some (.resize, r.fold.generation)
  | .flush => false
  | _ => owed

theorem owes_applyOverride (r : Resize) (owed : Bool) :
    r.owes owed .applyOverride = (owed && decide (r.applying = 0)) := rfl

def Watched.step (w : Watched) (op : ResizeStep) : Watched :=
  ⟨w.resize.step op, w.resize.owes w.owed op⟩

/-- No override is installed while a settle is outstanding, and no
decision reaches the table after a newer one of its kind. -/
def Undisturbed (w : Watched) : ResizeStep → Prop
  | .setCtlOverride _ => w.resize.fold.settlePending = false
  | .arm timer generation => w.resize.slots timer = some w.resize.fold.generation →
      generation = w.resize.fold.generation
  | _ => True

instance (w : Watched) : (op : ResizeStep) → Decidable (Undisturbed w op)
  | .setCtlOverride _ => inferInstanceAs (Decidable (_ = _))
  | .arm _ _ => inferInstanceAs (Decidable (_ → _))
  | .addContributor .. | .removeContributor _ | .offer .. | .applyOverride | .fire _ | .body | .flush
  | .clearMembers => .isTrue trivial

/-- What every undisturbed run keeps. -/
structure Tracked (r : Resize) (owed : Bool) : Prop where
  settle : r.fold.settlePending = true → r.OnItsWay .settle
  apply : owed = true ∨ r.Landed ∨ r.ApplyOnItsWay

theorem Tracked.setChange (h : r.Tracked owed) {decided : ArmDecision × ResizeFold}
    (hchange : r.fold.SetChange decided) :
    (r.armSettle decided).Tracked (owed || r.movesUnarmed decided) := by
  rcases hchange with ⟨harm, hgeneration⟩ | ⟨harm, hgeneration, hpending⟩
  · have hway : (r.armSettle decided).OnItsWay .settle := by
      simp [OnItsWay, armSettle, harm, hgeneration]
    exact ⟨fun _ => hway, .inr (.inr (.inr ⟨.settle, hway⟩))⟩
  · have hway : ∀ timer, (r.armSettle decided).OnItsWay timer ↔ r.OnItsWay timer := by
      simp [OnItsWay, armSettle, harm, hgeneration]
    constructor
    · intro hset
      exact (hway .settle).mpr (h.settle (hpending ▸ hset))
    · by_cases htarget : decided.2.target = r.fold.target
      · refine h.apply.imp (by simp +contextual) (.imp (fun hlanded => ?_) (.imp_right ?_))
        · simpa [Landed, armSettle, htarget] using hlanded
        · exact fun ⟨timer, htimer⟩ => ⟨timer, (hway timer).mpr htimer⟩
      · simp [movesUnarmed, harm, htarget]

theorem Tracked.offer (h : r.Tracked owed) (subscriber : SubscriberId) (grid : Grid) :
    (r.armDebounce (r.fold.noteOffer subscriber grid)).Tracked owed := by
  obtain ⟨hpending, ⟨hset, harm, hgeneration⟩ | ⟨hset, harm, hgeneration⟩⟩ :=
    r.fold.noteOffer_cases subscriber grid
  · have hway : (r.armDebounce (r.fold.noteOffer subscriber grid)).OnItsWay .settle := by
      simpa [OnItsWay, armDebounce, harm, hgeneration] using h.settle hset
    exact ⟨fun _ => hway, .inr (.inr (.inr ⟨.settle, hway⟩))⟩
  · have hway : (r.armDebounce (r.fold.noteOffer subscriber grid)).OnItsWay .resize := by
      simp [OnItsWay, armDebounce, harm, hgeneration]
    refine ⟨fun hnow => ?_, .inr (.inr (.inr ⟨.resize, hway⟩))⟩
    simp [armDebounce, hpending, hset] at hnow

theorem Tracked.apply_none (h : r.Tracked owed) (applying : Nat) :
    Tracked { r.apply none with applying } false := by
  rcases r.apply_cases none with ⟨_, hnone, -⟩ | ⟨hlanded, hgeneration, hpending, hslots, harming, -,
    hrunning⟩
  · simp at hnone
  · refine ⟨fun hset => ?_, .inr (.inl hlanded)⟩
    simpa [OnItsWay, hgeneration, hslots, harming, hrunning] using h.settle (hpending ▸ hset)

theorem OnItsWay.arm {timer timer' : Timer} {generation : UInt64} (h : r.OnItsWay timer')
    (hnewer : r.slots timer = some r.fold.generation → generation = r.fold.generation) :
    (r.arm timer generation).OnItsWay timer' := by
  unfold Resize.arm
  split
  swap
  · exact h
  rcases h with harming | hslot | hrunning
  · grind [OnItsWay]
  · by_cases hsame : timer' = timer
    · subst hsame
      simp [OnItsWay, hnewer hslot]
    · simp [OnItsWay, hsame, hslot]
  · exact .inr (.inr hrunning)

theorem OnItsWay.fire {timer timer' : Timer} (h : r.OnItsWay timer') : (r.fire timer).OnItsWay timer' := by
  unfold Resize.fire
  split
  swap
  · exact h
  rename_i generation hidle hslot
  rcases h with harming | hslot' | hrunning
  · exact .inl harming
  · by_cases hsame : timer' = timer
    · subst hsame
      simp only [hslot', Option.some.injEq] at hslot
      simp [OnItsWay, hslot]
    · simp [OnItsWay, hsame, hslot']
  · simp [hidle] at hrunning

theorem Tracked.congr (h : r.Tracked owed) {r' : Resize} (hfold : r'.fold = r.fold)
    (hwindow : r'.windowSize = r.windowSize) (happlying : r'.applying = r.applying)
    (hway : ∀ timer, r.OnItsWay timer → r'.OnItsWay timer) : r'.Tracked owed := by
  constructor
  · rw [hfold]
    exact fun hset => hway .settle (h.settle hset)
  · refine h.apply.imp_right (.imp (fun hlanded => ?_) (.imp ?_ ?_))
    · simpa [Landed, hfold, hwindow] using hlanded
    · simp [happlying]
    · exact fun ⟨timer, htimer⟩ => ⟨timer, hway timer htimer⟩

theorem Tracked.body (h : r.Tracked owed) :
    r.body.Tracked (owed && r.running ≠ some (.resize, r.fold.generation)) := by
  unfold Resize.body
  split
  · rename_i hidle
    simpa [hidle] using h
  · rename_i generation hrunning
    constructor
    · intro hset
      obtain ⟨hset, hne⟩ := ResizeFold.settlePending_clearSettle hset
      have hway := h.settle hset
      simpa [OnItsWay, hrunning, Ne.symm hne] using hway
    · refine h.apply.imp (by simp [hrunning]) (.imp (fun hlanded => ?_) (.imp_right ?_))
      · simpa [Landed] using hlanded
      · rintro ⟨timer, harming | hslot | hbody⟩
        · exact ⟨timer, .inl (by simpa using harming)⟩
        · exact ⟨timer, .inr (.inl (by simpa using hslot))⟩
        · obtain ⟨rfl, rfl⟩ : .settle = timer ∧ generation = r.fold.generation := by
            simpa [hrunning] using hbody
          exact ⟨.resize, .inr (.inr (by simp))⟩
  · rename_i generation hrunning
    rcases r.apply_cases (some generation) with ⟨_, hsome, hne, hstale⟩ | ⟨hlanded, hgeneration, hpending,
      hslots, harming, -, -⟩
    · cases hsome
      have hway : ∀ timer, r.OnItsWay timer → Resize.OnItsWay { r with running := none } timer := by
        rintro timer (harming | hslot | hbody)
        · exact .inl harming
        · exact .inr (.inl hslot)
        · simp [hrunning, hne] at hbody
      have hidle : Tracked { r with running := none } owed := h.congr rfl rfl rfl hway
      simpa [hstale, hrunning, hne] using hidle
    · refine ⟨fun hset => ?_, .inr (.inl hlanded)⟩
      have hway := h.settle (hpending ▸ hset)
      simpa [OnItsWay, hgeneration, hslots, harming, hrunning] using hway

theorem Tracked.step {w : Watched} (h : w.resize.Tracked w.owed) {op : ResizeStep}
    (hop : Undisturbed w op) : (w.step op).resize.Tracked (w.step op).owed := by
  cases op with
  | addContributor subscriber sizePassive =>
    exact h.setChange (w.resize.fold.addContributor_change subscriber sizePassive)
  | removeContributor subscriber => exact h.setChange (w.resize.fold.removeContributor_change subscriber)
  | offer subscriber grid => exact h.offer subscriber grid
  | setCtlOverride grid =>
    refine ⟨fun hset => ?_, .inr (.inr (.inl (Nat.succ_pos _)))⟩
    simp [Watched.step, Resize.step, ResizeFold.setCtlOverride, show _ = false from hop] at hset
  | applyOverride =>
    by_cases hnone : w.resize.applying = 0
    · have hsame : w.step .applyOverride = w := by
        simp only [Watched.step, Resize.step, owes_applyOverride, hnone, if_true, decide_true, Bool.and_true]
      rw [hsame]
      exact h
    · have hstep : w.step .applyOverride =
          ⟨{ w.resize.apply none with applying := w.resize.applying - 1 }, false⟩ := by
        simp only [Watched.step, Resize.step, owes_applyOverride, hnone, if_false, decide_false,
          Bool.and_false]
      rw [hstep]
      exact h.apply_none (w.resize.applying - 1)
  | arm timer generation =>
    have hsame : (w.resize.arm timer generation).fold = w.resize.fold ∧
        (w.resize.arm timer generation).windowSize = w.resize.windowSize ∧
        (w.resize.arm timer generation).applying = w.resize.applying := by
      unfold Resize.arm
      split <;> simp
    exact h.congr hsame.1 hsame.2.1 hsame.2.2 fun _ hway => hway.arm hop
  | fire timer =>
    have hsame : (w.resize.fire timer).fold = w.resize.fold ∧
        (w.resize.fire timer).windowSize = w.resize.windowSize ∧
        (w.resize.fire timer).applying = w.resize.applying := by
      unfold Resize.fire
      split <;> simp
    exact h.congr hsame.1 hsame.2.1 hsame.2.2 fun _ hway => hway.fire
  | body => exact h.body
  | flush =>
    have hflushed := h.apply_none (w.resize.apply none).applying
    exact hflushed
  | clearMembers =>
    refine ⟨fun hset => ?_, .inr (.inl ?_)⟩
    · simp [Watched.step, Resize.step, ResizeFold.clearMembers] at hset
    · simp [Landed, Watched.step, Resize.step]

theorem Tracked.armed (h : r.Tracked owed) (hset : r.fold.settlePending = true)
    (hidle : r.Idle) : r.slots .settle = some r.fold.generation := by
  obtain ⟨harming, -, hrunning⟩ := hidle
  rcases h.settle hset with hway | hway | hway
  · simp [harming] at hway
  · exact hway
  · simp [hrunning] at hway

theorem Tracked.landed (h : r.Tracked owed) (howed : owed = false) (hfired : r.Fired) : r.Landed := by
  obtain ⟨⟨harming, happlying, hrunning⟩, hslots⟩ := hfired
  rcases h.apply with hnow | hlanded | hnow | ⟨timer, hway | hway | hway⟩
  · simp [howed] at hnow
  · exact hlanded
  · simp [happlying] at hnow
  · simp [harming] at hway
  · simp [hslots] at hway
  · simp [hrunning] at hway

/-! ## §3 Runs -/

theorem tracked_run (openedSizePassive : Bool) {ops : List ResizeStep}
    (hops : Meets Watched.step Undisturbed (.new openedSizePassive) ops) :
    let w := run Watched.step (.new openedSizePassive) ops
    w.resize.Tracked w.owed := by
  refine hops.invariant (fun w => w.resize.Tracked w.owed) (fun w op hop h => h.step hop) ?_
  refine ⟨by simp [Watched.new, Resize.new, ResizeFold.new], .inr (.inl ?_)⟩
  have hnone : (Watched.new openedSizePassive).resize.fold.target = none :=
    ResizeFold.target_of_empty rfl rfl
  simp [Landed, hnone]

/-- No resize is stranded. In every undisturbed run, an outstanding settle
has its timer on its way, in the table once the calls are through; and
once all armed timers have fired the PTY has the override or else the fold
of the standing offers, unless a set change that armed nothing has moved
it since the last apply. -/
theorem resize_never_stranded (openedSizePassive : Bool) (ops : List ResizeStep)
    (hops : Meets Watched.step Undisturbed (.new openedSizePassive) ops) :
    let w := run Watched.step (.new openedSizePassive) ops
    (w.resize.fold.settlePending = true → w.resize.OnItsWay .settle) ∧
      (w.resize.fold.settlePending = true → w.resize.Idle →
        w.resize.slots .settle = some w.resize.fold.generation) ∧
      (w.resize.Fired → w.owed = false →
        ∀ grid, w.resize.fold.ctlOverride.or w.resize.fold.fold = some grid →
          w.resize.windowSize = some grid) := by
  have htracked := tracked_run openedSizePassive hops
  exact ⟨htracked.settle, htracked.armed, fun hfired howed => htracked.landed howed hfired⟩

/-- Two clients join; the second one's offer lands with the settle. -/
theorem resize_never_stranded_join :
    let ops := [.addContributor 0 false, .offer 0 ⟨120, 50, 0, 0⟩, .arm .resize 1, .fire .resize, .body,
      .addContributor 7 false, .arm .settle 2, .offer 7 ⟨200, 30, 0, 0⟩, .fire .settle, .body, .body]
    let w := run Watched.step (.new false) ops
    Meets Watched.step Undisturbed (.new false) ops ∧ w.resize.Fired ∧ w.owed = false ∧
      w.resize.windowSize = some ⟨120, 30, 0, 0⟩ := by
  intro ops w
  have hops : Meets Watched.step Undisturbed (.new false) ops := by decide +kernel
  have hfired : w.resize.Fired := by decide +kernel
  have howed : w.owed = false := by decide +kernel
  have hfold : w.resize.fold.ctlOverride.or w.resize.fold.fold = some ⟨120, 30, 0, 0⟩ := by
    decide +kernel
  exact ⟨hops, hfired, howed, (resize_never_stranded false ops hops).2.2 hfired howed _ hfold⟩

/-- An override installed during a settle takes a generation and leaves the
latch to a timer that no longer matches. A voter's leave that hands the
pane to a size-passive member arms nothing. And of two offers whose
decisions reach the table in the other order, the newer one's is lost. -/
theorem resize_stranded :
    let overridden := run Watched.step (.new false) [.addContributor 0 false, .addContributor 7 false,
      .arm .settle 1, .setCtlOverride ⟨132, 50, 0, 0⟩, .applyOverride, .fire .settle, .body, .body]
    let left := run Watched.step (.new false) [.addContributor 0 false, .offer 0 ⟨200, 60, 0, 0⟩,
      .arm .resize 1, .fire .resize, .body, .addContributor 9 true, .offer 9 ⟨40, 20, 0, 0⟩,
      .arm .resize 2, .fire .resize, .body, .removeContributor 0]
    let crossed := run Watched.step (.new false) [.addContributor 0 false, .addContributor 7 false,
      .arm .settle 1, .fire .settle, .body, .body, .offer 0 ⟨120, 50, 0, 0⟩,
      .offer 7 ⟨200, 30, 0, 0⟩, .arm .resize 3, .arm .resize 2, .fire .resize, .body]
    (overridden.resize.Fired ∧ overridden.resize.fold.settlePending = true) ∧
      (left.resize.Fired ∧ left.resize.fold.target = some ⟨40, 20, 0, 0⟩ ∧
        left.resize.windowSize = some ⟨200, 60, 0, 0⟩) ∧
      crossed.resize.Fired ∧ crossed.resize.fold.target = some ⟨120, 30, 0, 0⟩ ∧
        crossed.resize.windowSize = none := by
  decide +kernel

end Resize

end SlopDesk.Session
