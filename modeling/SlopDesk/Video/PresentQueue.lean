/-
SlopDesk.Video.PresentQueue — the queue of decoded frames, and its runs.
-/
import SlopDesk.Base.Runs

/-! # The queue a client presents decoded frames
from (`slopdesk-video/src/present_queue.rs`), without the images: it
carries handles, and tells the caller which of them it lets go.

§1 frames, and the handles a refresh drops. §2 the queue: its depths are in
their bands and it is no longer than the hard cap, in every value of the
type. §3 submitting, and one refresh. §4 the value a caller stores between
calls. The time a frame was submitted is carried and never read.
-/

namespace SlopDesk.Video

/-- `MAX_QUEUE_DEPTH`. -/
def maxQueueDepth : Nat := 16
/-- `QUEUE_CAPACITY`. -/
def queueCapacity : Nat := maxQueueDepth
/-- `u32::MAX`, where a count saturates. -/
def u32Max : Nat := 4294967295

/-! ## §1 Frames and handles -/

structure QueuedFrame (τ : Type u) where
  handle : UInt64
  submittedAt : τ
  deriving DecidableEq, Repr

/-- `DroppedHandles`: no more than the array holds. -/
structure DroppedHandles where
  slice : List UInt64
  fits : slice.length ≤ queueCapacity

namespace DroppedHandles

def new : DroppedHandles := ⟨[], Nat.zero_le _⟩

theorem fits_push {handles : List UInt64} (h : handles.length < queueCapacity) (handle : UInt64) :
    (handles ++ [handle]).length ≤ queueCapacity := by
  rw [List.length_append]
  exact h

/-- `push`: silently a full stop at the capacity. -/
def push (dropped : DroppedHandles) (handle : UInt64) : DroppedHandles :=
  if h : dropped.slice.length < queueCapacity then ⟨dropped.slice ++ [handle], fits_push h handle⟩
  else dropped

end DroppedHandles

structure Submission where
  evicted : Option UInt64
  wasEmpty : Bool
  deriving DecidableEq, Repr

inductive PresentOutcome (τ : Type u) where
  | priming (lastShown : Option UInt64)
  | present (frame : QueuedFrame τ) (transientDip : Bool)
  | hold (lastShown : Option UInt64)
  | reshow (lastShown : Option UInt64) (rePrimed : Bool)
  deriving DecidableEq, Repr

structure PresentStep (τ : Type u) where
  outcome : PresentOutcome τ
  dropped : DroppedHandles

/-! ## §2 The queue -/

structure PresentQueue (τ : Type u) where
  queue : List (QueuedFrame τ)
  maxDepth : Nat
  liveDepth : Nat
  primed : Bool
  underflowRun : Nat
  lastShown : Option UInt64
  ticksPerFrame : Nat
  ticksSinceSlot : Nat
  liveDepth_pos : 1 ≤ liveDepth
  liveDepth_le : liveDepth ≤ maxDepth
  maxDepth_le : maxDepth ≤ maxQueueDepth
  queue_le : queue.length ≤ maxDepth

namespace PresentQueue

variable {τ : Type u}
variable (q : PresentQueue τ)

/-- The hard cap of a configuration: in `1..=MAX_QUEUE_DEPTH`. -/
def capOf (maxDepth : Nat) : Nat := min (max maxDepth 1) maxQueueDepth

theorem capOf_pos (maxDepth : Nat) : 1 ≤ capOf maxDepth :=
  Nat.le_min.mpr ⟨Nat.le_max_right .., Nat.le_of_ble_eq_true rfl⟩

theorem min_capOf_pos (liveDepth maxDepth : Nat) : 1 ≤ min (max liveDepth 1) (capOf maxDepth) :=
  Nat.le_min.mpr ⟨Nat.le_max_right .., capOf_pos maxDepth⟩

def new (liveDepth maxDepth ticksPerFrame : Nat) : PresentQueue τ where
  queue := []
  maxDepth := capOf maxDepth
  liveDepth := min (max liveDepth 1) (capOf maxDepth)
  primed := false
  underflowRun := 0
  lastShown := none
  ticksPerFrame := max ticksPerFrame 1
  ticksSinceSlot := max ticksPerFrame 1
  liveDepth_pos := min_capOf_pos liveDepth maxDepth
  liveDepth_le := Nat.min_le_right ..
  maxDepth_le := Nat.min_le_right ..
  queue_le := Nat.zero_le _

def setTicksPerFrame (q : PresentQueue τ) (ticksPerFrame : Nat) : PresentQueue τ :=
  let ticks := if ticksPerFrame < 1 then 1 else ticksPerFrame
  { q with ticksPerFrame := ticks, ticksSinceSlot := ticks }

/-- `slot_opens`: whether this tick is a content slot. Counts the tick. -/
def slotOpens (q : PresentQueue τ) : Bool × PresentQueue τ :=
  let q := { q with ticksSinceSlot := min (q.ticksSinceSlot + 1) u32Max }
  if q.liveDepth < 2 then (true, q) else (q.ticksPerFrame ≤ q.ticksSinceSlot, q)

def boundedDepth (q : PresentQueue τ) (depth : Nat) : Nat :=
  if depth < 1 then 1 else if q.maxDepth < depth then q.maxDepth else depth

theorem boundedDepth_pos (depth : Nat) : 1 ≤ q.boundedDepth depth := by
  have hpos := Nat.le_trans q.liveDepth_pos q.liveDepth_le
  unfold boundedDepth
  split
  · exact Nat.le_refl 1
  · split <;> omega

theorem boundedDepth_le (depth : Nat) : q.boundedDepth depth ≤ q.maxDepth := by
  have hpos := Nat.le_trans q.liveDepth_pos q.liveDepth_le
  unfold boundedDepth
  split
  · exact hpos
  · split <;> omega

def adoptLiveDepth (q : PresentQueue τ) (depth : Nat) : PresentQueue τ :=
  { q with
    liveDepth := q.boundedDepth depth
    liveDepth_pos := q.boundedDepth_pos depth
    liveDepth_le := q.boundedDepth_le depth }

/-- `set_live_depth`: a promote primes again. -/
def setLiveDepth (q : PresentQueue τ) (depth : Nat) : PresentQueue τ :=
  let primed := if q.liveDepth < q.boundedDepth depth then false else q.primed
  { q.adoptLiveDepth depth with primed }

/-! ## §3 Submitting and refreshing -/

/-- The loop of `submit`: the oldest go until the rest fits, and the last of
them is told. -/
def trim (cap : Nat) : List (QueuedFrame τ) → Option UInt64 → List (QueuedFrame τ) × Option UInt64
  | [], evicted => ([], evicted)
  | stale :: rest, evicted =>
    if cap < rest.length + 1 then trim cap rest (some stale.handle) else (stale :: rest, evicted)

theorem length_trim (cap : Nat) (frames : List (QueuedFrame τ)) (evicted : Option UInt64) :
    (trim cap frames evicted).1.length ≤ cap := by
  induction frames generalizing evicted with
  | nil => exact Nat.zero_le _
  | cons stale rest ih =>
    grind [trim]

def submit (q : PresentQueue τ) (frame : QueuedFrame τ) : Submission × PresentQueue τ :=
  let trimmed := trim q.maxDepth (q.queue ++ [frame]) none
  (⟨trimmed.2, q.queue.isEmpty⟩,
    { q with queue := trimmed.1, queue_le := length_trim q.maxDepth (q.queue ++ [frame]) none })

theorem queue_tail_le : q.queue.tail.length ≤ q.maxDepth :=
  Nat.le_trans (List.length_tail ▸ Nat.sub_le ..) q.queue_le

def popFront (q : PresentQueue τ) : Option (QueuedFrame τ) × PresentQueue τ :=
  (q.queue.head?, { q with queue := q.queue.tail, queue_le := q.queue_tail_le })

/-- The loop of `step` over what is past the live depth. -/
def dropExcess : Nat → PresentQueue τ → DroppedHandles → PresentQueue τ × DroppedHandles
  | 0, q, dropped => (q, dropped)
  | excess + 1, q, dropped =>
    match q.popFront with
    | (some stale, q) => dropExcess excess q (dropped.push stale.handle)
    | (none, q) => dropExcess excess q dropped

/-- The rest of `step`, once a slot has opened. -/
def serve (q : PresentQueue τ) : PresentStep τ × PresentQueue τ :=
  let q := { q with ticksSinceSlot := 0 }
  let (q, dropped) := dropExcess (q.queue.length - q.liveDepth) q .new
  match q.popFront with
  | (some frame, q) =>
    (⟨.present frame (0 < q.underflowRun), dropped⟩,
      { q with underflowRun := 0, lastShown := some frame.handle })
  | (none, q) =>
    let underflowRun := min (q.underflowRun + 1) u32Max
    let rePrimed : Bool := max q.liveDepth 2 ≤ underflowRun
    (⟨.reshow q.lastShown rePrimed, dropped⟩,
      { q with underflowRun, primed := if rePrimed then false else q.primed })

def step (q : PresentQueue τ) : PresentStep τ × PresentQueue τ :=
  if ¬ q.primed ∧ q.queue.length < q.liveDepth then (⟨.priming q.lastShown, .new⟩, q)
  else
    let q := if q.primed then q
      else { q with primed := true, underflowRun := 0, ticksSinceSlot := q.ticksPerFrame }
    match q.slotOpens with
    | (true, q) => q.serve
    | (false, q) => (⟨.hold q.lastShown, .new⟩, q)

end PresentQueue

/-! ## §4 The stored value -/

structure PresentQueueSnapshot (τ : Type u) where
  queue : Vector (QueuedFrame τ) queueCapacity
  len : Nat
  lastShown : Option UInt64
  maxDepth : Nat
  liveDepth : Nat
  underflowRun : Nat
  primed : Bool
  ticksPerFrame : Nat
  ticksSinceSlot : Nat

/-- `EMPTY_SLOT`. -/
def emptySlot {τ : Type u} [Zero τ] : QueuedFrame τ := ⟨0, 0⟩

namespace PresentQueue

variable {τ : Type u}

def snapshot [Zero τ] (q : PresentQueue τ) : PresentQueueSnapshot τ where
  queue := .ofFn fun slot => (q.queue[slot.val]?).getD emptySlot
  len := min queueCapacity q.queue.length
  lastShown := q.lastShown
  maxDepth := q.maxDepth
  liveDepth := q.liveDepth
  underflowRun := q.underflowRun
  primed := q.primed
  ticksPerFrame := q.ticksPerFrame
  ticksSinceSlot := q.ticksSinceSlot

theorem length_live_le (snapshot : PresentQueueSnapshot τ) (cap : Nat) :
    (snapshot.queue.toList.take (min (min snapshot.len queueCapacity) cap)).length ≤ cap := by
  rw [List.length_take]
  exact Nat.le_trans (Nat.min_le_left ..) (Nat.min_le_right ..)

def restored (snapshot : PresentQueueSnapshot τ) : PresentQueue τ :=
  let restored : PresentQueue τ := new snapshot.liveDepth snapshot.maxDepth snapshot.ticksPerFrame
  { restored with
    primed := snapshot.primed
    underflowRun := snapshot.underflowRun
    lastShown := snapshot.lastShown
    ticksSinceSlot := min snapshot.ticksSinceSlot restored.ticksPerFrame
    queue := snapshot.queue.toList.take (min (min snapshot.len queueCapacity) restored.maxDepth)
    queue_le := length_live_le snapshot restored.maxDepth }

end PresentQueue

end SlopDesk.Video

/-! # No frame handle is lost or let go twice.

Everything the queue lets go of leaves from its front. So what left, in the
order it left, and then what is queued are the handles that were submitted,
in their order (`InOrder`): a submission has one fate, and what is presented
is presented in the order of the submissions.

§1 what one operation takes from the front. §2 the ledger of a caller, and
its runs.
-/

namespace SlopDesk.Video

open SlopDesk.Base

/-! ## §1 From the front -/

/-- The handle a refresh presents. -/
def PresentOutcome.presented {τ : Type u} : PresentOutcome τ → Option UInt64
  | .present frame _ => some frame.handle
  | _ => none

namespace PresentQueue

variable {τ : Type u}
variable {q : PresentQueue τ}

/-- The handles of some frames. -/
def handlesOf (frames : List (QueuedFrame τ)) : List UInt64 := frames.map QueuedFrame.handle

theorem trim_eq {cap : Nat} {frames : List (QueuedFrame τ)} (h : frames.length ≤ cap + 1) :
    handlesOf frames = (trim cap frames none).2.toList ++ handlesOf (trim cap frames none).1 := by
  cases frames with
  | nil => rfl
  | cons stale rest =>
    by_cases hover : cap < rest.length + 1
    · have hrest : trim cap rest (some stale.handle) = (rest, some stale.handle) := by
        cases rest with
        | nil => rfl
        | cons next rest =>
          have hfits : ¬ cap < rest.length + 1 := by
            simp only [List.length_cons] at h
            omega
          simp [trim, hfits]
      simp [trim, hover, hrest, handlesOf]
    · simp [trim, hover, handlesOf]

/-- A submission puts its handle last, and takes what it evicts from the
front. -/
theorem submit_spec (q : PresentQueue τ) (frame : QueuedFrame τ) : handlesOf q.queue ++ [frame.handle] =
      (q.submit frame).1.evicted.toList ++ handlesOf (q.submit frame).2.queue := by
  have hlength : (q.queue ++ [frame]).length ≤ q.maxDepth + 1 := by
    rw [List.length_append]
    exact Nat.succ_le_succ q.queue_le
  have htrim := trim_eq hlength
  simpa [handlesOf, submit] using htrim

theorem popFront_cons {stale : QueuedFrame τ} {rest : List (QueuedFrame τ)} (h : q.queue = stale :: rest) :
    ∃ q', q.popFront = (some stale, q') ∧ q'.queue = rest ∧ q'.maxDepth = q.maxDepth := by
  refine ⟨_, Prod.ext ?_ rfl, ?_, rfl⟩
  · simp [popFront, h]
  · simp [popFront, h]

theorem popFront_nil (h : q.queue = []) :
    ∃ q', q.popFront = (none, q') ∧ q'.queue = [] ∧ q'.maxDepth = q.maxDepth := by
  refine ⟨_, Prod.ext ?_ rfl, ?_, rfl⟩
  · simp [popFront, h]
  · simp [popFront, h]

theorem dropExcess_spec {excess : Nat} {dropped : DroppedHandles}
    (hexcess : excess ≤ q.queue.length) (h : dropped.slice.length + excess ≤ queueCapacity) :
    ∃ gone, q.queue = gone ++ (dropExcess excess q dropped).1.queue ∧
      (dropExcess excess q dropped).2.slice = dropped.slice ++ handlesOf gone ∧
      (dropExcess excess q dropped).1.maxDepth = q.maxDepth := by
  induction excess generalizing q dropped with
  | zero => exact ⟨[], rfl, by simp [dropExcess, handlesOf], rfl⟩
  | succ excess ih =>
    cases hqueue : q.queue with
    | nil => simp [hqueue] at hexcess
    | cons stale rest =>
      obtain ⟨q', hpop, hrest, hmax⟩ := popFront_cons hqueue
      have hpushed : (dropped.push stale.handle).slice = dropped.slice ++ [stale.handle] := by
        have hroom : dropped.slice.length < queueCapacity := by omega
        simp [DroppedHandles.push, hroom]
      have hfits : (dropped.push stale.handle).slice.length + excess ≤ queueCapacity := by
        grind
      rw [hqueue, List.length_cons] at hexcess
      obtain ⟨gone, hsplit, hslice, hmax'⟩ := ih (q := q') (by rw [hrest]; omega) hfits
      have hstep : dropExcess (excess + 1) q dropped =
          dropExcess excess q' (dropped.push stale.handle) := by
        rw [dropExcess, hpop]
      rw [hstep]
      refine ⟨stale :: gone, ?_, ?_, hmax'.trans hmax⟩
      · rw [← hrest, hsplit, List.cons_append]
      · rw [hslice, hpushed]
        simp [handlesOf]

theorem serve_spec (q : PresentQueue τ) :
    handlesOf q.queue = q.serve.1.dropped.slice ++ q.serve.1.outcome.presented.toList ++
      handlesOf q.serve.2.queue ∧ q.serve.2.maxDepth = q.maxDepth := by
  have hfits : DroppedHandles.new.slice.length + (q.queue.length - q.liveDepth) ≤ queueCapacity := by
    have hqueue := Nat.le_trans q.queue_le q.maxDepth_le
    have hnone : DroppedHandles.new.slice.length = 0 := rfl
    have hcapacity : queueCapacity = maxQueueDepth := rfl
    omega
  obtain ⟨gone, hsplit, hslice, hmax⟩ :=
    dropExcess_spec (q := { q with ticksSinceSlot := 0 }) (Nat.sub_le q.queue.length q.liveDepth) hfits
  unfold serve
  dsimp only at hsplit hslice hmax ⊢
  generalize dropExcess _ _ _ = left at hsplit hslice hmax ⊢
  obtain ⟨left, dropped⟩ := left
  have hdropped : dropped.slice = handlesOf gone := hslice
  cases hleft : left.queue with
  | nil =>
    obtain ⟨q', hpop, hrest, hmax'⟩ := popFront_nil hleft
    rw [hpop]
    refine ⟨?_, hmax'.trans hmax⟩
    simp [hsplit, hleft, hdropped, handlesOf, PresentOutcome.presented, hrest]
  | cons frame rest =>
    obtain ⟨q', hpop, hrest, hmax'⟩ := popFront_cons hleft
    rw [hpop]
    refine ⟨?_, hmax'.trans hmax⟩
    simp [hsplit, hleft, hdropped, handlesOf, PresentOutcome.presented, hrest]

theorem step_spec (q : PresentQueue τ) :
    handlesOf q.queue = q.step.1.dropped.slice ++ q.step.1.outcome.presented.toList ++
      handlesOf q.step.2.queue ∧ q.step.2.maxDepth = q.maxDepth := by
  unfold step
  split
  · exact ⟨rfl, rfl⟩
  · -- neither the priming nor the tick count touches the queue
    have hprimed : ∀ primed : PresentQueue τ, primed = (if q.primed then q else
        { q with primed := true, underflowRun := 0, ticksSinceSlot := q.ticksPerFrame }) →
        primed.queue = q.queue ∧ primed.maxDepth = q.maxDepth := by
      rintro _ rfl
      split <;> exact ⟨rfl, rfl⟩
    dsimp only
    generalize hprimed' : (if q.primed then q else
      { q with primed := true, underflowRun := 0, ticksSinceSlot := q.ticksPerFrame }) = primed
    obtain ⟨hqueue, hmax⟩ := hprimed primed hprimed'.symm
    have htick : primed.slotOpens.2.queue = q.queue ∧ primed.slotOpens.2.maxDepth = q.maxDepth := by
      grind [slotOpens]
    generalize primed.slotOpens = ticked at htick
    obtain ⟨opens, ticked⟩ := ticked
    cases opens with
    | true =>
      obtain ⟨hserved, hmax'⟩ := serve_spec ticked
      exact ⟨htick.1 ▸ hserved, hmax'.trans htick.2⟩
    | false => exact ⟨congrArg handlesOf htick.1.symm, htick.2⟩

theorem restored_snapshot [Zero τ] (q : PresentQueue τ) :
    (restored q.snapshot).queue = q.queue ∧ (restored q.snapshot).maxDepth = q.maxDepth ∧
      (restored q.snapshot).liveDepth = q.liveDepth := by
  have hpos := Nat.le_trans q.liveDepth_pos q.liveDepth_le
  have hcap : capOf q.maxDepth = q.maxDepth := by
    rw [capOf, Nat.max_eq_left hpos, Nat.min_eq_left q.maxDepth_le]
  have hqueue : q.queue.length ≤ queueCapacity := Nat.le_trans q.queue_le q.maxDepth_le
  refine ⟨?_, hcap, ?_⟩
  · change q.snapshot.queue.toList.take (min (min q.snapshot.len queueCapacity) (capOf q.maxDepth)) = q.queue
    have hlive : min (min q.snapshot.len queueCapacity) (capOf q.maxDepth) = q.queue.length := by
      have hlen : q.snapshot.len = q.queue.length := Nat.min_eq_right hqueue
      rw [hlen, hcap, Nat.min_eq_left hqueue, Nat.min_eq_left q.queue_le]
    rw [hlive]
    refine List.ext_getElem ?_ fun i hi hi' => ?_
    · simp [snapshot, Nat.min_eq_left hqueue]
    · simp [snapshot, hi']
  · change min (max q.liveDepth 1) (capOf q.maxDepth) = q.liveDepth
    rw [hcap, Nat.max_eq_left q.liveDepth_pos, Nat.min_eq_left q.liveDepth_le]

end PresentQueue

/-! ## §2 The ledger -/

open PresentQueue

/-- What became of a submitted frame. -/
inductive Fate where
  | evicted
  | dropped
  | presented
  deriving DecidableEq, Repr

/-- A queue, the handles submitted to it, and those it has let go of, in the
order it did, each with its fate. -/
structure Presentation (τ : Type u) where
  queue : PresentQueue τ
  submitted : List UInt64
  settled : List (Fate × UInt64)

/-- What a caller does with a queue. -/
inductive PresentOp (τ : Type u) where
  | submit (frame : QueuedFrame τ)
  | step
  | setLiveDepth (depth : Nat)
  | adoptLiveDepth (depth : Nat)
  | setTicksPerFrame (ticksPerFrame : Nat)
  | store

namespace Presentation

variable {τ : Type u} [Zero τ]

/-- Before the first frame. -/
def start (queue : PresentQueue τ) : Presentation τ := ⟨queue, [], []⟩

/-- One call. What it lets go of is what its answer says: the evicted
handle of a submission, the dropped handles of a refresh and then the one it
presents. -/
def step (p : Presentation τ) : PresentOp τ → Presentation τ
  | .submit frame =>
    { queue := (p.queue.submit frame).2
      submitted := p.submitted ++ [frame.handle]
      settled := p.settled ++ (p.queue.submit frame).1.evicted.toList.map (Fate.evicted, ·) }
  | .step =>
    { queue := p.queue.step.2
      submitted := p.submitted
      settled := p.settled ++ p.queue.step.1.dropped.slice.map (Fate.dropped, ·) ++
        p.queue.step.1.outcome.presented.toList.map (Fate.presented, ·) }
  | .setLiveDepth depth => { p with queue := p.queue.setLiveDepth depth }
  | .adoptLiveDepth depth => { p with queue := p.queue.adoptLiveDepth depth }
  | .setTicksPerFrame ticksPerFrame => { p with queue := p.queue.setTicksPerFrame ticksPerFrame }
  | .store => { p with queue := .restored p.queue.snapshot }

/-- The handles of a fate. -/
def fated (p : Presentation τ) (fate : Fate) : List UInt64 :=
  (p.settled.filter (·.1 = fate)).map Prod.snd

/-- What was submitted is what left, in that order, and what is queued. -/
def InOrder (p : Presentation τ) : Prop :=
  p.submitted = p.settled.map Prod.snd ++ handlesOf p.queue.queue

theorem InOrder.step {p : Presentation τ} (h : p.InOrder) (op : PresentOp τ) : (p.step op).InOrder := by
  unfold InOrder at h ⊢
  cases op with
  | submit frame =>
    have hsubmit := p.queue.submit_spec frame
    simp [Presentation.step, h, hsubmit, Function.comp_def]
  | step =>
    have hstep := p.queue.step_spec.1
    simp [Presentation.step, h, hstep, Function.comp_def]
  | setLiveDepth depth => exact h
  | adoptLiveDepth depth => exact h
  | setTicksPerFrame ticksPerFrame => exact h
  | store =>
    change p.submitted = p.settled.map Prod.snd ++ handlesOf (restored p.queue.snapshot).queue
    rw [p.queue.restored_snapshot.1]
    exact h

theorem maxDepth_step (p : Presentation τ) (op : PresentOp τ) :
    (p.step op).queue.maxDepth = p.queue.maxDepth := by
  cases op with
  | submit frame => rfl
  | step => exact p.queue.step_spec.2
  | setLiveDepth depth => rfl
  | adoptLiveDepth depth => rfl
  | setTicksPerFrame ticksPerFrame => rfl
  | store => exact p.queue.restored_snapshot.2.1

omit [Zero τ] in
theorem count_fated (p : Presentation τ) (handle : UInt64) : (p.settled.map Prod.snd).count handle =
    (p.fated .evicted).count handle + (p.fated .dropped).count handle +
      (p.fated .presented).count handle := by
  unfold fated
  induction p.settled with
  | nil => rfl
  | cons first rest ih =>
    obtain ⟨fate, other⟩ := first
    cases fate <;> simp [List.count_cons, ih] <;> omega

/-- No handle is lost and none is let go of twice. What was submitted is
what left, each handle with its one fate, and then what is queued, all in
the order of the submissions; so a handle was submitted as often as it was
evicted, dropped, presented and is queued, what was presented was presented
in order, and the queue is within the cap it was built with. -/
theorem handles_conserved (liveDepth maxDepth ticksPerFrame : Nat) (ops : List (PresentOp τ)) :
    let p := run step (start (PresentQueue.new liveDepth maxDepth ticksPerFrame)) ops
    p.submitted = p.settled.map Prod.snd ++ handlesOf p.queue.queue ∧
      (∀ handle, p.submitted.count handle =
        (p.fated .evicted).count handle + (p.fated .dropped).count handle +
          (p.fated .presented).count handle + (handlesOf p.queue.queue).count handle) ∧
      (p.fated .presented).Sublist p.submitted ∧
      p.queue.queue.length ≤ p.queue.maxDepth ∧ p.queue.maxDepth = min (max maxDepth 1) maxQueueDepth := by
  intro p
  have hstart : (start (PresentQueue.new liveDepth maxDepth ticksPerFrame : PresentQueue τ)).InOrder := rfl
  have horder : p.InOrder := run_invariant InOrder (fun _ op h => h.step op) hstart ops
  have hcap : p.queue.maxDepth = min (max maxDepth 1) maxQueueDepth :=
    run_invariant (fun p : Presentation τ => p.queue.maxDepth = min (max maxDepth 1) maxQueueDepth)
      (fun p op h => (p.maxDepth_step op).trans h) rfl ops
  refine ⟨horder, fun handle => ?_, ?_, p.queue.queue_le, hcap⟩
  · rw [horder, List.count_append, p.count_fated]
  · rw [horder]
    exact (List.filter_sublist.map Prod.snd).trans (List.sublist_append_left ..)

end Presentation

end SlopDesk.Video
