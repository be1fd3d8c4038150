/-
SlopDesk.Video.DecodeSequencer — in-order decode admission
(`slopdesk-video/src/decode_admission.rs`).

The sequencer moves frame ids, not frames: a completion or a declared
loss answers with the ids the decoder should now see and the ids a
keyframe made obsolete. Its sets are lists of a fixed capacity, kept in
numeric order; a full one keeps what it has.
-/
import SlopDesk.Base.SequenceSpace

namespace SlopDesk.Video

open SlopDesk.Base

/-! ## Id lists -/

/-- `IdList<N>`: the live prefix. -/
structure IdList (capacity : Nat) where
  ids : List UInt32
  fits : ids.length ≤ capacity
  deriving DecidableEq

namespace IdList

variable {n : Nat}

def new : IdList n := ⟨[], Nat.zero_le _⟩

theorem length_push_le {ids : List UInt32} (h : ids.length < n) (id : UInt32) :
    (ids ++ [id]).length ≤ n := by
  rw [List.length_append, List.length_singleton]
  exact h

def push (l : IdList n) (id : UInt32) : IdList n :=
  if h : l.ids.length < n then ⟨l.ids ++ [id], length_push_le h id⟩ else l

/-- `insert_sorted`: a binary search finds the id or where it belongs. -/
def insertSorted (l : IdList n) (id : UInt32) : IdList n :=
  if id ∈ l.ids then l
  else if h : l.ids.length < n then
    ⟨l.ids.takeWhile (· < id) ++ id :: l.ids.dropWhile (· < id), by
      have hlen := congrArg List.length (l.ids.takeWhile_append_dropWhile (p := (· < id)))
      simp only [List.length_append, List.length_cons] at hlen ⊢
      omega⟩
  else l

/-- `remove`, with whether the id was there. -/
def remove (l : IdList n) (id : UInt32) : Option (IdList n) :=
  if id ∈ l.ids then some ⟨l.ids.erase id, Nat.le_trans List.length_erase_le l.fits⟩ else none

def retain (l : IdList n) (keep : UInt32 → Bool) : IdList n :=
  ⟨l.ids.filter keep, Nat.le_trans (List.length_filter_le _ _) l.fits⟩

/-- The later of two ids in wrap space, the first one on a tie. -/
def newer (newest id : UInt32) : UInt32 := if 0 < distanceWrapped id newest then id else newest

def newestWrapped (l : IdList n) : Option UInt32 :=
  match l.ids with
  | [] => none
  | first :: rest => some (rest.foldl newer first)

/-- The earlier of two ids in wrap space, the first one on a tie. -/
def older (current candidate : UInt32) : UInt32 :=
  if distanceWrapped candidate current < 0 then candidate else current

/-- The passes of `sort_wrapped`: each swaps the earliest id of the rest to
the front. -/
def selectionSort : Nat → List UInt32 → List UInt32
  | 0, ids => ids
  | _, [] => []
  | fuel + 1, first :: rest =>
    let best := rest.foldl older first
    if best = first then first :: selectionSort fuel rest
    else best :: selectionSort fuel (rest.replace best first)

def sortWrapped (l : IdList n) : List UInt32 := selectionSort l.ids.length l.ids

end IdList

/-! ## The sequencer -/

/-- `MAX_VALVE`, the ceiling of both valves. -/
def maxValve : Nat := 64
/-- `HELD_CAPACITY`. -/
def heldCapacity : Nat := maxValve + 1
/-- `LOST_CAPACITY`. -/
def lostCapacity : Nat := 2 * maxValve + 1

structure SequencerStep where
  released : IdList heldCapacity
  dropped : IdList heldCapacity
  deriving DecidableEq

namespace SequencerStep

def empty : SequencerStep := ⟨.new, .new⟩

def only (frameId : UInt32) : SequencerStep := ⟨IdList.new.push frameId, .new⟩

end SequencerStep

/-- `DecodeSequencer`, with what the clamps of `new` leave of the valves. -/
structure DecodeSequencer where
  nextExpected : Option UInt32
  held : IdList heldCapacity
  lostAhead : IdList lostCapacity
  maxHeld : Nat
  maxGap : Int
  maxHeld_pos : 1 ≤ maxHeld
  maxHeld_le : maxHeld ≤ maxValve
  maxGap_pos : 1 ≤ maxGap
  maxGap_le : maxGap ≤ maxValve

namespace DecodeSequencer

def clampValveCount (maxHeld : Nat) : Nat :=
  if maxHeld < 1 then 1 else if maxValve < maxHeld then maxValve else maxHeld

def clampValveSpan (maxGap : Int) : Int :=
  if maxGap < 1 then 1 else if maxValve < maxGap then maxValve else maxGap

theorem clampValveCount_mem (maxHeld : Nat) :
    1 ≤ clampValveCount maxHeld ∧ clampValveCount maxHeld ≤ maxValve := by
  unfold clampValveCount maxValve
  split
  · omega
  · split <;> omega

theorem clampValveSpan_mem (maxGap : Int) :
    1 ≤ clampValveSpan maxGap ∧ clampValveSpan maxGap ≤ maxValve := by
  unfold clampValveSpan maxValve
  split
  · omega
  · split <;> omega

def new (maxHeld : Nat) (maxGap : Int) : DecodeSequencer where
  nextExpected := none
  held := .new
  lostAhead := .new
  maxHeld := clampValveCount maxHeld
  maxGap := clampValveSpan maxGap
  maxHeld_pos := (clampValveCount_mem maxHeld).1
  maxHeld_le := (clampValveCount_mem maxHeld).2
  maxGap_pos := (clampValveSpan_mem maxGap).1
  maxGap_le := (clampValveSpan_mem maxGap).2

/-- The loop of `drain_contiguous`: held ids go, declared-lost ids are
skipped, the first true hole stops the run. -/
def drainLoop : Nat → DecodeSequencer → UInt32 → SequencerStep → DecodeSequencer × SequencerStep
  | 0, s, _, step => (s, step)
  | fuel + 1, s, expected, step =>
    match s.held.remove expected with
    | some held =>
      drainLoop fuel { s with held, nextExpected := some (expected + 1) } (expected + 1)
        { step with released := step.released.push expected }
    | none =>
      match s.lostAhead.remove expected with
      | some lostAhead =>
        drainLoop fuel { s with lostAhead, nextExpected := some (expected + 1) } (expected + 1) step
      | none => (s, step)

/-- `drain_contiguous`. Each turn takes an id off one of the two lists, so
there are no more turns than ids. -/
def drainContiguous (s : DecodeSequencer) (step : SequencerStep) :
    DecodeSequencer × SequencerStep :=
  match s.nextExpected with
  | none => (s, step)
  | some expected => drainLoop (s.held.ids.length + s.lostAhead.ids.length + 1) s expected step

/-- Where the overflow valve leaves the expectation. -/
def pastAll (lastHeld newestLost : Option UInt32) (expected : Option UInt32) : Option UInt32 :=
  match lastHeld, newestLost with
  | some last, some lost =>
    if 0 < distanceWrapped (lost + 1) (last + 1) then some (lost + 1) else some (last + 1)
  | some last, none => some (last + 1)
  | none, some lost => some (lost + 1)
  | none, none => expected

def flushAll (s : DecodeSequencer) : DecodeSequencer × SequencerStep :=
  let released := s.held.sortWrapped.foldl IdList.push IdList.new
  ({ s with
      nextExpected := pastAll released.ids.getLast? s.lostAhead.newestWrapped s.nextExpected
      held := .new
      lostAhead := .new },
    ⟨released, .new⟩)

def noteCompleted (s : DecodeSequencer) (frameId : UInt32) (keyframe : Bool) :
    DecodeSequencer × SequencerStep :=
  match s.nextExpected with
  | none => ({ s with nextExpected := some (frameId + 1) }, .only frameId)
  | some expected =>
    let distance := distanceWrapped frameId expected
    if keyframe then
      if 0 ≤ distance then
        let obsolete := s.held.ids.filter fun id => distanceWrapped id frameId ≤ 0
        let step := SequencerStep.only frameId
        drainContiguous
          { s with
            held := s.held.retain fun id => 0 < distanceWrapped id frameId
            lostAhead := s.lostAhead.retain fun id => 0 < distanceWrapped id frameId
            nextExpected := some (frameId + 1) }
          { step with dropped := obsolete.foldl IdList.push step.dropped }
      else (s, .only frameId)
    else if distance < 0 then (s, .only frameId)
    else if distance = 0 then
      drainContiguous { s with nextExpected := some (expected + 1) } (.only frameId)
    else
      let s := { s with held := s.held.insertSorted frameId }
      if s.maxHeld < s.held.ids.length ∨ s.maxGap < distance then s.flushAll else (s, .empty)

def noteLost (s : DecodeSequencer) (frameId : UInt32) : DecodeSequencer × SequencerStep :=
  match s.nextExpected with
  | none => (s, .empty)
  | some expected =>
    let distance := distanceWrapped frameId expected
    if distance < 0 then (s, .empty)
    else if distance = 0 then
      drainContiguous { s with nextExpected := some (expected + 1) } .empty
    else
      let s := { s with lostAhead := s.lostAhead.insertSorted frameId }
      if s.maxHeld + s.maxGap.natAbs < s.lostAhead.ids.length + s.held.ids.length then s.flushAll
      else (s, .empty)

end DecodeSequencer

end SlopDesk.Video
