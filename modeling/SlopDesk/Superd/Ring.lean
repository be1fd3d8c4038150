/-
SlopDesk.Superd.Ring — the ring of a pane, and the window of its stream it holds.
-/
import SlopDesk.Base.Placed
import SlopDesk.Base.Runs

/-! # The bytes superd keeps of a pane's output
(`slopdesk-superd/src/ring.rs`).

The ring holds the newest bytes of a stream, at most its capacity, under
absolute offsets. Offsets are `Nat`: they count the bytes of one pane's
life, which stays far below the source's `u64`.
-/

namespace SlopDesk.Superd

open SlopDesk.Base

structure Resume where
  start : Nat
  head : Nat
  bytes : List UInt8
  deriving DecidableEq, Repr

def Resume.isLossy (r : Resume) (requested : Nat) : Bool := r.start > requested

structure OutputRing where
  bytes : List UInt8
  capacity : Nat
  base : Nat
  deriving DecidableEq, Repr

namespace OutputRing

def new (capacity : Nat) : OutputRing := ⟨[], capacity, 0⟩

def head (r : OutputRing) : Nat := r.base + r.bytes.length

/-- `append`: a chunk larger than the ring leaves its own tail. -/
def append (r : OutputRing) (chunk : List UInt8) : OutputRing :=
  if r.capacity = 0 then { r with base := r.base + chunk.length }
  else
    let kept := min chunk.length r.capacity
    let droppedFromChunk := chunk.length - kept
    let base := r.base + droppedFromChunk
    let bytes := r.bytes ++ chunk.drop droppedFromChunk
    let overflow := bytes.length - r.capacity
    if overflow > 0 then { r with bytes := bytes.drop overflow, base := base + overflow }
    else { r with bytes, base }

/-- `read_from`: an offset past the head is not clamped back. -/
def readFrom (r : OutputRing) (offset : Nat) : Resume :=
  let start := min (max offset r.base) r.head
  { start, head := r.head, bytes := r.bytes.drop (start - r.base) }

def forget (r : OutputRing) : OutputRing := { r with base := r.head, bytes := [] }

/-! ## A window of the stream -/

/-- The ring holds the end of `stream`, within its capacity. -/
structure Holds (r : OutputRing) (stream : List UInt8) : Prop where
  within : r.bytes.length ≤ r.capacity
  base_le : r.base ≤ stream.length
  bytes : r.bytes = stream.drop r.base

variable {r : OutputRing} {stream : List UInt8}

theorem holds_new (capacity : Nat) : (new capacity).Holds [] := ⟨Nat.zero_le _, Nat.le_refl _, rfl⟩

theorem Holds.head_eq (h : r.Holds stream) : r.head = stream.length := by
  have hbase := h.base_le
  rw [head, h.bytes, List.length_drop]
  omega

theorem Holds.append (h : r.Holds stream) (chunk : List UInt8) :
    (r.append chunk).Holds (stream ++ chunk) := by
  have hwithin := h.within
  have hhead : r.base + r.bytes.length = stream.length := h.head_eq
  have hbase := h.base_le
  have hall : r.bytes ++ chunk = (stream ++ chunk).drop r.base := by
    rw [List.drop_append_of_le_length hbase, ← h.bytes]
  unfold OutputRing.append
  split
  case isTrue hzero =>
    have hempty : r.bytes = [] := List.length_eq_zero_iff.mp (by omega)
    refine ⟨hwithin, ?_, ?_⟩
    · simp only [List.length_append]
      omega
    · rw [hempty, List.drop_eq_nil_of_le]
      simp only [List.length_append]
      omega
  case isFalse hcapacity =>
    -- what is kept of both, counted from the base
    have hkept : ∀ overflow, r.bytes.length ≤ overflow ∨ chunk.length ≤ r.capacity →
        (r.bytes ++ chunk.drop (chunk.length - min chunk.length r.capacity)).drop overflow
          = (stream ++ chunk).drop
              (r.base + (chunk.length - min chunk.length r.capacity) + overflow) := by
      intro overflow hcase
      rcases hcase with hpast | hfits
      · have hold : stream.drop
            (r.base + (chunk.length - min chunk.length r.capacity) + overflow) = [] :=
          List.drop_eq_nil_of_le (by omega)
        rw [List.drop_append, List.drop_eq_nil_of_le hpast, List.nil_append, List.drop_drop,
          List.drop_append, hold, List.nil_append]
        congr 1
        omega
      · rw [Nat.min_eq_left hfits, Nat.sub_self, List.drop_zero, hall, List.drop_drop]
        rfl
    dsimp only
    split
    case isTrue hover =>
      simp only [List.length_append, List.length_drop] at hover ⊢
      refine ⟨?_, ?_, ?_⟩
      · grind
      · simp only [List.length_append]
        omega
      · exact hkept _ (by omega)
    case isFalse hroom =>
      simp only [List.length_append, List.length_drop] at hroom
      refine ⟨?_, ?_, ?_⟩
      · grind
      · simp only [List.length_append]
        omega
      · have hzero := hkept 0 (by omega)
        simpa using hzero

theorem Holds.readFrom (h : r.Holds stream) (offset : Nat) :
    (r.readFrom offset).head = stream.length ∧ (r.readFrom offset).start ≤ stream.length ∧
    (r.readFrom offset).bytes = stream.drop (r.readFrom offset).start := by
  have hhead := h.head_eq
  have hbase := h.base_le
  refine ⟨hhead, ?_, ?_⟩
  · simp only [OutputRing.readFrom]
    omega
  · grind [OutputRing.readFrom, h.bytes, List.drop_drop]

end OutputRing

end SlopDesk.Superd

/-! # A ring is a window of its stream, as the
machine counts it (`slopdesk-superd/src/ring.rs`).

`Ring` counts offsets without end. The source keeps them in a `u64`, with
additions that stop at its largest value, and reads a deque through its two
slices, wherever the deque wraps. §1 is the ring with both, §2 that it is
the ring of `Ring` for as long as the stream fits a `u64`, and §3 what any
run of it holds and reads.
-/

namespace SlopDesk.Superd

open SlopDesk.Base

/-- `u64::MAX`. -/
def u64Max : Nat := 18446744073709551615

/-- `saturating_add`, of two `u64`. -/
def addSaturating (a b : Nat) : Nat := min (a + b) u64Max

theorem addSaturating_of_le {a b : Nat} (h : a + b ≤ u64Max) : addSaturating a b = a + b :=
  Nat.min_eq_left h

namespace OutputRing

/-! ## §1 The ring as the machine counts -/

/-- `head`. -/
def headSaturating (r : OutputRing) : Nat := addSaturating r.base r.bytes.length

/-- `append`. -/
def appendSaturating (r : OutputRing) (chunk : List UInt8) : OutputRing :=
  if r.capacity = 0 then { r with base := addSaturating r.base chunk.length }
  else
    let kept := min chunk.length r.capacity
    let droppedFromChunk := chunk.length - kept
    let base := addSaturating r.base droppedFromChunk
    let bytes := r.bytes ++ chunk.drop droppedFromChunk
    let overflow := bytes.length - r.capacity
    if overflow > 0 then
      { r with bytes := bytes.drop overflow, base := addSaturating base overflow }
    else { r with bytes, base }

/-- `forget`. -/
def forgetSaturating (r : OutputRing) : OutputRing :=
  { r with base := r.headSaturating, bytes := [] }

/-- `read_from`, of a deque whose `as_slices` are `front` and `back`. -/
def readSlices (r : OutputRing) (front back : List UInt8) (offset : Nat) : Resume :=
  let start := min (max offset r.base) r.headSaturating
  let skip := start - r.base
  { start
    head := r.headSaturating
    bytes := front.drop skip ++ back.drop (skip - front.length) }

/-- What superd does to a pane's ring. -/
inductive Op where
  | append (chunk : List UInt8)
  | forget

/-- One of them. -/
def step (r : OutputRing) : Op → OutputRing
  | .append chunk => r.appendSaturating chunk
  | .forget => r.forgetSaturating

/-- What an operation adds to the stream. -/
def Op.appended : Op → List UInt8
  | .append chunk => chunk
  | .forget => []

/-- All that a run appends. -/
def appended (ops : List Op) : List UInt8 := ops.flatMap Op.appended

@[simp] theorem appended_nil : appended [] = [] := rfl

@[simp] theorem appended_cons (op : Op) (ops : List Op) :
    appended (op :: ops) = op.appended ++ appended ops := rfl

/-! ## §2 While the stream fits -/

variable {r : OutputRing} {stream : List UInt8}

section

variable (h : r.Holds stream)
include h

theorem Holds.headSaturating (hfits : stream.length ≤ u64Max) :
    r.headSaturating = stream.length := by
  have hhead : r.base + r.bytes.length = stream.length := h.head_eq
  rw [OutputRing.headSaturating, addSaturating_of_le (by omega), hhead]

theorem Holds.appendSaturating_eq {chunk : List UInt8}
    (hfits : (stream ++ chunk).length ≤ u64Max) : r.appendSaturating chunk = r.append chunk := by
  have hhead : r.base + r.bytes.length = stream.length := h.head_eq
  rw [List.length_append] at hfits
  have hchunk : addSaturating r.base chunk.length = r.base + chunk.length :=
    addSaturating_of_le (by omega)
  have hdropped : addSaturating r.base (chunk.length - min chunk.length r.capacity) =
      r.base + (chunk.length - min chunk.length r.capacity) := addSaturating_of_le (by omega)
  have hoverflow : addSaturating (r.base + (chunk.length - min chunk.length r.capacity))
      ((r.bytes ++ chunk.drop (chunk.length - min chunk.length r.capacity)).length - r.capacity) =
      r.base + (chunk.length - min chunk.length r.capacity) +
        ((r.bytes ++ chunk.drop (chunk.length - min chunk.length r.capacity)).length - r.capacity) := by
    refine addSaturating_of_le ?_
    simp only [List.length_append, List.length_drop]
    omega
  simp only [OutputRing.appendSaturating, OutputRing.append, hchunk, hdropped, hoverflow]

theorem Holds.forget (hfits : stream.length ≤ u64Max) :
    r.forgetSaturating.Holds stream := by
  have hhead := h.headSaturating hfits
  constructor
  · exact Nat.zero_le _
  · exact Nat.le_of_eq hhead
  · show [] = stream.drop r.headSaturating
    rw [hhead, List.drop_length]

theorem Holds.step (op : Op) (hfits : (stream ++ op.appended).length ≤ u64Max) :
    (r.step op).Holds (stream ++ op.appended) := by
  cases op with
  | append chunk =>
    have happend : r.appendSaturating chunk = r.append chunk := h.appendSaturating_eq hfits
    show (r.appendSaturating chunk).Holds (stream ++ chunk)
    rw [happend]
    exact h.append chunk
  | forget =>
    show r.forgetSaturating.Holds (stream ++ [])
    rw [List.append_nil]
    exact h.forget (by simpa [Op.appended] using hfits)

theorem Holds.run {ops : List Op} (hfits : (stream ++ appended ops).length ≤ u64Max) :
    (run OutputRing.step r ops).Holds (stream ++ appended ops) := by
  induction ops generalizing r stream with
  | nil => simpa using h
  | cons op ops ih =>
    rw [appended_cons, ← List.append_assoc] at hfits ⊢
    refine ih (h.step op ?_) hfits
    rw [List.length_append] at hfits
    omega

end

theorem capacity_step (r : OutputRing) (op : Op) : (r.step op).capacity = r.capacity := by
  cases op with
  | append chunk =>
    show (r.appendSaturating chunk).capacity = r.capacity
    simp only [appendSaturating]
    split
    · rfl
    · split <;> rfl
  | forget => rfl

theorem capacity_run (r : OutputRing) (ops : List Op) : (Base.run step r ops).capacity = r.capacity :=
  run_invariant (fun s => s.capacity = r.capacity) (fun s op h => (capacity_step s op).trans h) rfl ops

/-! ## §3 What is held, and what is read -/

/-- A byte of the stream that the ring no longer holds. -/
def Evicted (r : OutputRing) (stream : List UInt8) (i : Nat) : Prop :=
  i < stream.length ∧ ¬ (r.base ≤ i ∧ i < r.headSaturating)

theorem drop_slices (front back : List UInt8) (skip : Nat) :
    front.drop skip ++ back.drop (skip - front.length) = (front ++ back).drop skip :=
  List.drop_append.symm

theorem Holds.readSlices (h : r.Holds stream) (hfits : stream.length ≤ u64Max)
    {front back : List UInt8} (hslices : front ++ back = r.bytes) (offset : Nat) :
    r.readSlices front back offset =
      ⟨min (max offset r.base) stream.length, stream.length,
        stream.drop (min (max offset r.base) stream.length)⟩ := by
  have hhead := h.headSaturating hfits
  have hbase := h.base_le
  have hstart : r.base + (min (max offset r.base) stream.length - r.base) =
      min (max offset r.base) stream.length := by omega
  simp only [OutputRing.readSlices, hhead, drop_slices, hslices, h.bytes, List.drop_drop, hstart]

theorem Holds.lossy_iff (h : r.Holds stream) (hfits : stream.length ≤ u64Max) (offset : Nat) :
    min (max offset r.base) stream.length > offset ↔ ∃ i, offset ≤ i ∧ r.Evicted stream i := by
  have hhead := h.headSaturating hfits
  constructor
  · intro hlossy
    exact ⟨offset, Nat.le_refl _, by omega, by omega⟩
  · rintro ⟨i, hi, hstream, hgone⟩
    omega

/-- Every run of appends and forgets whose stream a `u64` can count, from a
new ring of any capacity. The ring holds the stream from its base to its
head, the head is all that was appended, and no more is held than the
capacity. A read from any offset, however the deque is wrapped, answers the
stream from that offset, held between the base and the head, to the head;
and it is lossy exactly when a byte of the stream at or past the offset is
gone. -/
theorem window_of_stream (capacity : Nat) (ops : List Op) (hfits : (appended ops).length ≤ u64Max) :
    let r := Base.run step (new capacity) ops
    r.bytes = ((appended ops).take r.headSaturating).drop r.base ∧
    r.base ≤ r.headSaturating ∧
    r.headSaturating = (appended ops).length ∧
    r.bytes.length ≤ capacity ∧
    ∀ (front back : List UInt8) (offset : Nat), front ++ back = r.bytes →
      let resume := r.readSlices front back offset
      resume.start = min (max offset r.base) r.headSaturating ∧
      resume.head = r.headSaturating ∧
      resume.bytes = ((appended ops).take resume.head).drop resume.start ∧
      (resume.isLossy offset = true ↔ ∃ i, offset ≤ i ∧ r.Evicted (appended ops) i) := by
  intro r
  have h : r.Holds (appended ops) := (holds_new capacity).run hfits
  have hhead := h.headSaturating hfits
  have hcapacity : r.capacity = capacity := capacity_run (new capacity) ops
  refine ⟨?_, ?_, hhead, ?_, ?_⟩
  · rw [hhead, List.take_length]
    exact h.bytes
  · rw [hhead]
    exact h.base_le
  · rw [← hcapacity]
    exact h.within
  · intro front back offset hslices
    rw [h.readSlices hfits hslices]
    refine ⟨by rw [hhead], hhead.symm, by rw [List.take_length], ?_⟩
    simpa [Resume.isLossy] using h.lossy_iff hfits offset

/-- Two chunks through a ring of four. -/
theorem window_of_stream_four :
    let ops := [Op.append [1, 2, 3], .append [4, 5, 6]]
    (appended ops).length ≤ u64Max ∧
      (Base.run step (new 4) ops).bytes = [3, 4, 5, 6] ∧
      (Base.run step (new 4) ops).headSaturating = (appended ops).length :=
  ⟨by decide, by decide, (window_of_stream 4 [.append [1, 2, 3], .append [4, 5, 6]] (by decide)).2.2.1⟩

/-- Three chunks, none longer than a slice can be, of one byte more than a
`u64` counts: the head stops short of what was appended. -/
theorem head_saturates :
    let chunk := List.replicate 9223372036854775807 (0 : UInt8)
    let ops := [Op.append chunk, .append chunk, .append [0, 0]]
    (Base.run step (new 0) ops).headSaturating ≠ (appended ops).length := by
  intro chunk ops
  have hchunk : chunk.length = 9223372036854775807 := List.length_replicate
  have htotal : (appended ops).length = 18446744073709551616 := by
    simp only [ops, appended_cons, appended_nil, Op.appended, List.length_append, hchunk,
      List.length_cons, List.length_nil]
  have hhead : (Base.run step (new 0) ops).headSaturating ≤ u64Max := Nat.min_le_right ..
  rw [htotal]
  intro heq
  rw [heq] at hhead
  exact absurd hhead (by decide)

end OutputRing

end SlopDesk.Superd
