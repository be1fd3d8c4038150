/-
SlopDesk.Document.SyncLadder — the ladder a client climbs to a synchronised document,
and what holds on it.
-/
import SlopDesk.Base.BTree
import SlopDesk.Wire.Codec

/-! # What the host may send one subscriber next,
and against which base (`slopdesk-workspace/src/sync_ladder.rs`).

The ladder mints a slot for every state it sends and answers, with each
call that drops states, the slots that stopped being reachable; `Retention`
keeps the payload of each slot beside it. State numbers are `Int` (they are
only compared), slots are the source's `u32`. A subscriber's presence is
left out: no document decision reads it.
-/

namespace SlopDesk.Document

open SlopDesk.Base
open SlopDesk.Wire (RawUuid)

/-- `RETAINED_SENT_STATES`. -/
def retainedSentStates : Nat := 4

/-- `MAX_RELEASED`. -/
def maxReleased : Nat := retainedSentStates + 1

/-- `NO_SLOT`. -/
def noSlot : UInt32 := 0xFFFFFFFF

structure Retained where
  stateNum : Int
  slot : UInt32
  deriving DecidableEq, Repr

structure Released where
  slots : List UInt32 := []
  deriving DecidableEq, Repr

/-- `Released::push`: a slot past the last cell is not recorded. -/
def Released.push (r : Released) (slot : UInt32) : Released :=
  if r.slots.length < maxReleased then { r with slots := r.slots ++ [slot] } else r

/-- The document frame of a `Plan`. -/
structure PlanFrame where
  resetFirst : Bool
  snapshot : Bool
  baseStateNum : Int
  baseSlot : UInt32
  released : Released
  deriving DecidableEq, Repr

inductive Plan where
  | hold
  | send (frame : PlanFrame)
  deriving DecidableEq, Repr

structure Commit where
  slot : UInt32
  released : Released
  deriving DecidableEq, Repr

/-! ## The window -/

/-- The loop of `drop_through`: what stays, and the slots released so far. -/
def dropThroughLoop (stateNum : Int) (promoted : UInt32) :
    List Retained → Released → List Retained × Released
  | [], released => ([], released)
  | entry :: rest, released =>
    if entry.stateNum > stateNum then
      let (kept, released) := dropThroughLoop stateNum promoted rest released
      (entry :: kept, released)
    else if entry.slot ≠ promoted then
      dropThroughLoop stateNum promoted rest (released.push entry.slot)
    else dropThroughLoop stateNum promoted rest released

/-- The loop of `clear`. -/
def clearLoop (promoted : UInt32) : List Retained → Released → Released
  | [], released => released
  | entry :: rest, released =>
    clearLoop promoted rest (if entry.slot ≠ promoted then released.push entry.slot else released)

/-- The replacing loop of `push`: the entries under other numbers. -/
def replaceLoop (stateNum : Int) : List Retained → Released → List Retained × Released
  | [], released => ([], released)
  | held :: rest, released =>
    if held.stateNum = stateNum then replaceLoop stateNum rest (released.push held.slot)
    else
      let (kept, released) := replaceLoop stateNum rest released
      (held :: kept, released)

theorem dropThroughLoop_eq (stateNum : Int) (promoted : UInt32) (entries : List Retained)
    (released : Released) : (dropThroughLoop stateNum promoted entries released).1
      = entries.filter fun e => e.stateNum > stateNum := by
  induction entries generalizing released with
  | nil => rfl
  | cons entry rest ih =>
    by_cases habove : entry.stateNum > stateNum
    case pos => simp [dropThroughLoop, habove, ih]
    case neg => by_cases hother : entry.slot ≠ promoted <;> simp [dropThroughLoop, habove, hother, ih]

theorem replaceLoop_eq (stateNum : Int) (entries : List Retained) (released : Released) :
    (replaceLoop stateNum entries released).1
      = entries.filter fun e => ¬ e.stateNum = stateNum := by
  induction entries generalizing released with
  | nil => rfl
  | cons held rest ih => by_cases hsame : held.stateNum = stateNum <;> simp [replaceLoop, hsame, ih]

/-- `Window`: the states sent and not yet acked, oldest first. -/
structure Window where
  entries : List Retained
  fits : entries.length ≤ retainedSentStates

namespace Window

def new : Window := ⟨[], Nat.zero_le _⟩

def find (w : Window) (stateNum : Int) : Option Retained :=
  w.entries.find? fun entry => entry.stateNum = stateNum

def dropThrough (w : Window) (stateNum : Int) (promoted : UInt32) (released : Released) :
    Window × Released :=
  ({ entries := (dropThroughLoop stateNum promoted w.entries released).1
     fits := by
      rw [dropThroughLoop_eq]
      exact Nat.le_trans (List.length_filter_le ..) w.fits },
    (dropThroughLoop stateNum promoted w.entries released).2)

def clear (w : Window) (promoted : UInt32) (released : Released) : Window × Released :=
  (new, clearLoop promoted w.entries released)

/-- `evict_oldest`, for a window that has to make room. -/
def evictOldest : List Retained → Released → List Retained × Released
  | [], released => ([], released)
  | oldest :: rest, released => (rest, released.push oldest.slot)

/-- The entries `push` leaves room beside, and what it released for it. -/
def makeRoom (w : Window) (stateNum : Int) (released : Released) : List Retained × Released :=
  let (kept, released) := replaceLoop stateNum w.entries released
  if kept.length = retainedSentStates then evictOldest kept released else (kept, released)

theorem length_makeRoom (w : Window) (stateNum : Int) (released : Released) :
    (w.makeRoom stateNum released).1.length < retainedSentStates := by
  have hkept : (replaceLoop stateNum w.entries released).1.length ≤ retainedSentStates := by
    rw [replaceLoop_eq]
    exact Nat.le_trans (List.length_filter_le ..) w.fits
  unfold makeRoom
  dsimp only
  split
  case isTrue hfull =>
    cases hlist : (replaceLoop stateNum w.entries released).1 with
    | nil => simp [hlist, retainedSentStates] at hfull
    | cons oldest rest =>
      rw [hlist, List.length_cons] at hfull
      simp only [evictOldest]
      omega
  case isFalse hroom => exact Nat.lt_of_le_of_ne hkept hroom

def push (w : Window) (entry : Retained) (released : Released) : Window × Released :=
  ({ entries := (w.makeRoom entry.stateNum released).1 ++ [entry]
     fits := by
      rw [List.length_append, List.length_singleton]
      exact w.length_makeRoom entry.stateNum released },
    (w.makeRoom entry.stateNum released).2)

end Window

/-! ## The ladder -/

structure SyncLadder where
  window : Window
  nextSlot : UInt32
  baseSlot : Option UInt32
  ackedStateNum : Int
  sentEpoch : Option RawUuid
  outstanding : Option Int
  pendingAck : Option Int
  needsSnapshot : Bool
  contributesSize : Bool
  followsFocus : Bool

namespace SyncLadder

def new (contributesSize followsFocus : Bool) : SyncLadder where
  window := .new
  nextSlot := 0
  baseSlot := none
  ackedStateNum := 0
  sentEpoch := none
  outstanding := none
  pendingAck := none
  needsSnapshot := true
  contributesSize
  followsFocus

def noteAck (l : SyncLadder) (stateNum : Int) : SyncLadder :=
  { l with pendingAck := some (match l.pendingAck with
      | some held => if held ≥ stateNum then held else stateNum
      | none => stateNum) }

def adoptBase (l : SyncLadder) (slot : Option UInt32) (stateNum : Int) (released : Released) :
    SyncLadder × Released :=
  ({ l with baseSlot := slot, ackedStateNum := stateNum },
    match l.baseSlot with
    | some old => if some old ≠ slot then released.push old else released
    | none => released)

def applyPendingAck (l : SyncLadder) : SyncLadder × Released :=
  match l.pendingAck with
  | none => (l, {})
  | some stateNum =>
    let l := { l with pendingAck := none }
    match l.window.find stateNum with
    | none =>
      -- a re-ack of the base is not news, anything else is an absence
      ({ l with
          needsSnapshot := if stateNum ≠ l.ackedStateNum then true else l.needsSnapshot
          outstanding := none }, {})
    | some retained =>
      let (window, released) := l.window.dropThrough stateNum retained.slot {}
      let (l, released) := { l with window }.adoptBase (some retained.slot) stateNum released
      (if l.outstanding = some stateNum then { l with outstanding := none } else l, released)

/-- What a resubscribe claims, if it is retained under this epoch. -/
def claimed (l : SyncLadder) (knownEpoch : RawUuid) (knownStateNum : Int) : Option Retained :=
  if l.sentEpoch = some knownEpoch ∧ knownStateNum ≠ 0 then l.window.find knownStateNum else none

def resubscribe (l : SyncLadder) (knownEpoch : RawUuid) (knownStateNum : Int)
    (contributesSize followsFocus : Bool) : SyncLadder × Released :=
  let l := { l with contributesSize, followsFocus, outstanding := none }
  match l.claimed knownEpoch knownStateNum with
  | some retained =>
    let (window, released) := l.window.clear retained.slot {}
    let (l, released) :=
      { l with window }.adoptBase (some retained.slot) retained.stateNum released
    ({ l with needsSnapshot := false }, released)
  | none =>
    let (window, released) := l.window.clear noSlot {}
    let (l, released) := { l with window }.adoptBase none 0 released
    ({ l with needsSnapshot := true }, released)

/-- Whether the document is another one than the last sent. -/
def resetFirst (l : SyncLadder) (epoch : RawUuid) : Bool :=
  match l.sentEpoch with
  | some sent => sent ≠ epoch
  | none => false

/-- The part of `plan` an epoch change makes. -/
def enterEpoch (l : SyncLadder) (epoch : RawUuid) : SyncLadder × Released :=
  if l.resetFirst epoch then
    let (window, released) := l.window.clear noSlot {}
    let (l, released) := { l with window }.adoptBase none 0 released
    ({ l with needsSnapshot := true, sentEpoch := some epoch }, released)
  else ({ l with sentEpoch := some epoch }, {})

def plan (l : SyncLadder) (epoch : RawUuid) : Plan × SyncLadder :=
  if l.outstanding.isSome then (.hold, l)
  else
    let resetFirst := l.resetFirst epoch
    let (l, released) := l.enterEpoch epoch
    let snapshot := l.needsSnapshot || l.ackedStateNum = 0 || l.baseSlot.isNone
    (.send {
      resetFirst
      snapshot
      baseStateNum := if snapshot then 0 else l.ackedStateNum
      baseSlot := if snapshot then noSlot else l.baseSlot.getD noSlot
      released }, l)

def mintSlot (l : SyncLadder) : UInt32 × SyncLadder :=
  (l.nextSlot, { l with nextSlot := if l.nextSlot + 1 = noSlot then 0 else l.nextSlot + 1 })

def commit (l : SyncLadder) (stateNum : Int) : Commit × SyncLadder :=
  let l := { l with needsSnapshot := false, outstanding := some stateNum }
  let (slot, l) := l.mintSlot
  let (window, released) := l.window.push { stateNum, slot } {}
  ({ slot, released }, { l with window })

end SyncLadder

/-! ## Payloads -/

inductive Planned (τ : Type) where
  | hold
  | snapshot (resetFirst : Bool)
  | diff (baseStateNum : Int) (base : τ)
  deriving DecidableEq, Repr

structure Retention (τ : Type) where
  ladder : SyncLadder
  held : BTreeMap UInt32 τ

namespace Retention

variable {τ : Type}

def new (contributesSize followsFocus : Bool) : Retention τ := ⟨.new contributesSize followsFocus, ∅⟩

def dropReleased (held : BTreeMap UInt32 τ) (released : Released) : BTreeMap UInt32 τ :=
  released.slots.foldl (fun held slot => held.erase slot) held

def noteAck (r : Retention τ) (stateNum : Int) : Retention τ :=
  { r with ladder := r.ladder.noteAck stateNum }

def applyPendingAck (r : Retention τ) : Retention τ :=
  let (ladder, released) := r.ladder.applyPendingAck
  { ladder, held := dropReleased r.held released }

def resubscribe (r : Retention τ) (knownEpoch : RawUuid) (knownStateNum : Int)
    (contributesSize followsFocus : Bool) : Retention τ :=
  let (ladder, released) :=
    r.ladder.resubscribe knownEpoch knownStateNum contributesSize followsFocus
  { ladder, held := dropReleased r.held released }

def plan (r : Retention τ) (epoch : RawUuid) : Planned τ × Retention τ :=
  match r.ladder.plan epoch with
  | (.hold, ladder) => (.hold, { r with ladder })
  | (.send frame, ladder) =>
    let held := dropReleased r.held frame.released
    if frame.snapshot then (.snapshot frame.resetFirst, { ladder, held })
    else
      match held[frame.baseSlot]? with
      | none => (.snapshot frame.resetFirst, { ladder, held })
      | some base => (.diff frame.baseStateNum base, { ladder, held })

def clear (r : Retention τ) : Retention τ := { r with held := ∅ }

def commit (r : Retention τ) (stateNum : Int) (payload : τ) : Retention τ :=
  let (commit, ladder) := r.ladder.commit stateNum
  let held := dropReleased r.held commit.released
  { ladder, held := if commit.slot ≠ noSlot then held.insert commit.slot payload else held }

end Retention

end SlopDesk.Document

/-! # Every call on a ladder takes its
reachable slots apart into those it releases and those it keeps.

The slots a ladder can reach are its window's and its base's. §1 says what
the loops of the window release, §2 what each call releases, where its base
and number come from, and what a plan is computed against.
-/

namespace SlopDesk.Document

open SlopDesk.Base
open SlopDesk.Wire (RawUuid)

/-! ## §1 What the window releases -/

/-- Slots recorded one after the other. -/
def Released.pushAll (r : Released) (slots : List UInt32) : Released := slots.foldl Released.push r

theorem Released.slots_pushAll {r : Released} {slots : List UInt32}
    (h : r.slots.length + slots.length ≤ maxReleased) : (r.pushAll slots).slots = r.slots ++ slots := by
  induction slots generalizing r with
  | nil => simp [pushAll]
  | cons slot slots ih =>
    rw [List.length_cons] at h
    have hpush : r.push slot = ⟨r.slots ++ [slot]⟩ := if_pos (by omega)
    have hrest : (r.push slot).slots.length + slots.length ≤ maxReleased := by
      grind
    have hall := ih hrest
    simpa [pushAll, hpush] using hall

theorem dropThroughLoop_released (stateNum : Int) (promoted : UInt32) (entries : List Retained)
    (released : Released) : (dropThroughLoop stateNum promoted entries released).2 = released.pushAll
      ((entries.filter fun e => e.stateNum ≤ stateNum ∧ e.slot ≠ promoted).map Retained.slot) := by
  induction entries generalizing released with
  | nil => rfl
  | cons entry rest ih =>
    by_cases hle : entry.stateNum ≤ stateNum
    case neg => simp [dropThroughLoop, hle, not_le.mp hle, ih]
    case pos =>
      have habove : ¬ entry.stateNum > stateNum := not_lt.mpr hle
      by_cases hother : entry.slot ≠ promoted
      case pos => simp [dropThroughLoop, habove, hle, hother, ih, Released.pushAll]
      case neg => simp [dropThroughLoop, habove, hother, ih]

theorem clearLoop_released (promoted : UInt32) (entries : List Retained) (released : Released) :
    clearLoop promoted entries released = released.pushAll
      ((entries.filter fun e => e.slot ≠ promoted).map Retained.slot) := by
  induction entries generalizing released with
  | nil => rfl
  | cons entry rest ih =>
    by_cases hother : entry.slot ≠ promoted
    case pos => simp [clearLoop, hother, ih, Released.pushAll]
    case neg => simp [clearLoop, hother, ih]

theorem replaceLoop_released (stateNum : Int) (entries : List Retained) (released : Released) :
    (replaceLoop stateNum entries released).2 = released.pushAll
      ((entries.filter fun e => e.stateNum = stateNum).map Retained.slot) := by
  induction entries generalizing released with
  | nil => rfl
  | cons held rest ih =>
    by_cases hsame : held.stateNum = stateNum
    case pos => simp [replaceLoop, hsame, ih, Released.pushAll]
    case neg => simp [replaceLoop, hsame, ih]

/-! ## §2 Reachable slots -/

namespace SyncLadder

/-- The slots a ladder can reach: the window's, then the base's. -/
def reachable (l : SyncLadder) : List UInt32 :=
  l.window.entries.map Retained.slot ++ l.baseSlot.toList

/-- A ladder's slots and numbers are each held once, and none is `NO_SLOT`. -/
structure Distinct (l : SyncLadder) : Prop where
  slots : l.reachable.Nodup
  real : noSlot ∉ l.reachable
  nums : (l.window.entries.map Retained.stateNum).Nodup

/-- A call that takes nothing in: what was reachable is released or kept,
the window only loses entries, and the base stays, goes, or comes out of
the window. -/
structure Drops (l l' : SyncLadder) (released : Released) : Prop where
  split : (released.slots ++ l'.reachable).Perm l.reachable
  window : l'.window.entries.Sublist l.window.entries
  nextSlot : l'.nextSlot = l.nextSlot
  base : (l'.baseSlot = l.baseSlot ∧ l'.ackedStateNum = l.ackedStateNum) ∨ l'.baseSlot = none ∨
    ∃ e ∈ l.window.entries, l'.baseSlot = some e.slot ∧ l'.ackedStateNum = e.stateNum

variable {l : SyncLadder}
variable {l' : SyncLadder} {e : Retained} {n : Int} {released : Released}
variable {w : Window} {slot : UInt32} {dropped : List Retained}

theorem Drops.same (hwindow : l'.window = l.window) (hnext : l'.nextSlot = l.nextSlot)
    (hbase : l'.baseSlot = l.baseSlot) (hacked : l'.ackedStateNum = l.ackedStateNum) : Drops l l' {} where
  split := by simp [reachable, hwindow, hbase]
  window := by rw [hwindow]
  nextSlot := hnext
  base := .inl ⟨hbase, hacked⟩

theorem mem_of_find (h : w.find n = some e) : e ∈ w.entries ∧ e.stateNum = n :=
  ⟨List.mem_of_find?_eq_some h, by simpa using List.find?_some h⟩

theorem Distinct.filter_slot (h : l.Distinct) (he : e ∈ l.window.entries) :
    l.window.entries.filter (fun x => x.slot = e.slot) = [e] := by
  have hslots : (l.window.entries.map Retained.slot).Nodup := (List.nodup_append.mp h.slots).1
  have hunique : ∀ x ∈ l.window.entries, x.slot = e.slot ↔ x = e := fun x hx =>
    ⟨fun heq => List.inj_on_of_nodup_map hslots hx he heq, fun heq => heq ▸ rfl⟩
  have hfilter : l.window.entries.filter (fun x => x.slot = e.slot)
      = l.window.entries.filter (fun x => x = e) :=
    List.filter_congr fun x hx => by simp [hunique x hx]
  rw [hfilter, List.filter_eq, List.count_eq_one_of_mem hslots.of_map he]
  rfl

theorem Distinct.base_notin (h : l.Distinct) (hbase : l.baseSlot = some slot) :
    slot ∉ l.window.entries.map Retained.slot := by
  intro hmem
  have hdisjoint := (List.nodup_append.mp h.slots).2.2 slot hmem slot (by simp [hbase])
  exact hdisjoint rfl

theorem Distinct.length_base (l : SyncLadder) : l.baseSlot.toList.length ≤ 1 := by
  cases l.baseSlot <;> simp

theorem slots_adoptBase {slot : Option UInt32}
    (hroom : released.slots.length < maxReleased) (hother : ∀ s, l.baseSlot = some s → some s ≠ slot) :
    (l.adoptBase slot n released).2.slots = released.slots ++ l.baseSlot.toList := by
  unfold adoptBase
  cases hbase : l.baseSlot with
  | none => simp
  | some old =>
    dsimp only
    rw [if_pos (hother old hbase), Released.push, if_pos hroom]
    rfl

/-- A window taken apart: the entries a promotion drops, those it keeps, and
the one it takes. -/
theorem perm_promote {entries : List Retained} {p : Retained → Bool} (hp : p e)
    (hone : entries.filter (fun x => x.slot = e.slot) = [e]) :
    (entries.filter (fun x => p x ∧ x.slot ≠ e.slot)
      ++ (entries.filter (fun x => ¬ p x) ++ [e])).Perm entries := by
  have hpart := List.filter_append_perm p entries
  have hslot := List.filter_append_perm (fun x => decide (x.slot ≠ e.slot)) (entries.filter p)
  have hself : (entries.filter p).filter (fun x => !decide (x.slot ≠ e.slot)) = [e] := by
    rw [List.filter_comm]
    simp only [ne_eq, decide_not, Bool.not_not, hone]
    simp [hp]
  rw [hself, List.filter_filter] at hslot
  refine List.perm_iff_count.mpr fun x => ?_
  have hpart' := List.perm_iff_count.mp hpart x
  have hslot' := List.perm_iff_count.mp hslot x
  simp only [List.count_append, Bool.and_comm, Bool.decide_and, Bool.decide_eq_true, decide_not]
    at hpart' hslot' ⊢
  omega

theorem perm_reachable (dropped : List Retained)
    (taken : List UInt32) (hslots : released.slots = dropped.map Retained.slot ++ l.baseSlot.toList)
    (hbase : l'.baseSlot.toList = taken)
    (hsplit : (dropped.map Retained.slot ++ (l'.window.entries.map Retained.slot ++ taken)).Perm
      (l.window.entries.map Retained.slot)) :
    (released.slots ++ l'.reachable).Perm l.reachable := by
  refine List.perm_iff_count.mpr fun x => ?_
  have hcount := List.perm_iff_count.mp hsplit x
  simp only [reachable, hslots, hbase, List.count_append] at hcount ⊢
  omega

theorem slots_dropped (h : dropped.Sublist l.window.entries) :
    (Released.pushAll {} (dropped.map Retained.slot)).slots = dropped.map Retained.slot := by
  have hlength := h.length_le
  have hfits := l.window.fits
  rw [Released.slots_pushAll]
  · rfl
  · simp only [List.length_nil, List.length_map, maxReleased]
    omega

/-- A promotion out of the window: what it dropped is released with the old
base. -/
theorem Distinct.adopt (h : l.Distinct) (he : e ∈ l.window.entries)
    (hdropped : dropped.Sublist l.window.entries) (hkept : w.entries.Sublist l.window.entries)
    (hperm : (dropped ++ (w.entries ++ [e])).Perm l.window.entries) : Drops l
      ({ l with window := w }.adoptBase (some e.slot) e.stateNum
        (Released.pushAll {} (dropped.map Retained.slot))).1
      ({ l with window := w }.adoptBase (some e.slot) e.stateNum
        (Released.pushAll {} (dropped.map Retained.slot))).2 where
  split := by
    have hlength := hdropped.length_le
    have hfits := l.window.fits
    have hroom : (Released.pushAll {} (dropped.map Retained.slot)).slots.length < maxReleased := by
      rw [slots_dropped hdropped, List.length_map, maxReleased]
      omega
    have hother : ∀ s, l.baseSlot = some s → some s ≠ some e.slot := by
      intro s hbase heq
      rw [Option.some.inj heq] at hbase
      exact h.base_notin hbase (List.mem_map_of_mem he)
    refine perm_reachable dropped [e.slot] ?_ rfl ?_
    · exact (slots_adoptBase (l := { l with window := w }) hroom hother).trans
        (by rw [slots_dropped hdropped])
    · simpa [adoptBase] using hperm.map Retained.slot
  window := hkept
  nextSlot := rfl
  base := .inr (.inr ⟨e, he, rfl, rfl⟩)

theorem Distinct.reset (h : l.Distinct) :
    Drops l ({ l with window := .new }.adoptBase none 0 (l.window.clear noSlot {}).2).1
      ({ l with window := .new }.adoptBase none 0 (l.window.clear noSlot {}).2).2 where
  split := by
    have hfits := l.window.fits
    have hreal : ∀ e ∈ l.window.entries, e.slot ≠ noSlot := fun e he heq =>
      h.real (List.mem_append_left _ (heq ▸ List.mem_map_of_mem he))
    have hall : l.window.entries.filter (fun e => e.slot ≠ noSlot) = l.window.entries :=
      List.filter_eq_self.mpr fun e he => by simpa using hreal e he
    have hreleased : (l.window.clear noSlot {}).2.slots = l.window.entries.map Retained.slot := by
      rw [Window.clear, clearLoop_released, hall, slots_dropped (List.Sublist.refl _)]
    have hroom : (l.window.clear noSlot {}).2.slots.length < maxReleased := by
      rw [hreleased, List.length_map, maxReleased]
      omega
    refine perm_reachable l.window.entries [] ?_ rfl ?_
    · exact (slots_adoptBase (l := { l with window := .new }) hroom (fun _ _ => by simp)).trans
        (by rw [hreleased])
    · simp [adoptBase, Window.new]
  window := List.nil_sublist _
  nextSlot := rfl
  base := .inr (.inl rfl)

theorem Drops.congr {l'' : SyncLadder} (h : Drops l l' released)
    (hwindow : l''.window = l'.window) (hnext : l''.nextSlot = l'.nextSlot)
    (hbase : l''.baseSlot = l'.baseSlot) (hacked : l''.ackedStateNum = l'.ackedStateNum) :
    Drops l l'' released where
  split := by
    have hreachable : l''.reachable = l'.reachable := by simp [reachable, hwindow, hbase]
    rw [hreachable]
    exact h.split
  window := hwindow ▸ h.window
  nextSlot := hnext.trans h.nextSlot
  base := by rw [hbase, hacked]; exact h.base

theorem entries_dropThrough (w : Window) (n : Int) (promoted : UInt32) (released : Released) :
    (w.dropThrough n promoted released).1.entries = w.entries.filter fun e => e.stateNum > n :=
  dropThroughLoop_eq ..

theorem Distinct.applyPendingAck (h : l.Distinct) : Drops l l.applyPendingAck.1 l.applyPendingAck.2 := by
  unfold SyncLadder.applyPendingAck
  cases l.pendingAck with
  | none => exact .same rfl rfl rfl rfl
  | some n =>
    dsimp only
    cases hfind : l.window.find n with
    | none => exact .same rfl rfl rfl rfl
    | some e =>
      obtain ⟨he, rfl⟩ := mem_of_find hfind
      have hperm := perm_promote (p := fun x => decide (x.stateNum ≤ e.stateNum)) (by simp)
        (h.filter_slot he)
      have hkept := entries_dropThrough l.window e.stateNum e.slot {}
      have hsplit : (l.window.entries.filter (fun x => x.stateNum ≤ e.stateNum ∧ x.slot ≠ e.slot)
          ++ ((l.window.dropThrough e.stateNum e.slot {}).1.entries ++ [e])).Perm
            l.window.entries := by
        rw [hkept]
        simpa [not_le] using hperm
      have hdrops := h.adopt he List.filter_sublist (hkept ▸ List.filter_sublist) hsplit
      rw [← dropThroughLoop_released] at hdrops
      refine hdrops.congr ?_ ?_ ?_ ?_ <;> (dsimp only; split <;> rfl)

theorem Distinct.resubscribe (h : l.Distinct) (knownEpoch : RawUuid) (knownStateNum : Int)
    (contributesSize followsFocus : Bool) :
    Drops l (l.resubscribe knownEpoch knownStateNum contributesSize followsFocus).1
      (l.resubscribe knownEpoch knownStateNum contributesSize followsFocus).2 := by
  unfold SyncLadder.resubscribe
  dsimp only
  cases hclaimed : { l with contributesSize, followsFocus, outstanding := none }.claimed knownEpoch
      knownStateNum with
  | none => exact h.reset.congr rfl rfl rfl rfl
  | some e =>
    have he : e ∈ l.window.entries := by
      unfold claimed at hclaimed
      split at hclaimed
      case isTrue => exact (mem_of_find hclaimed).1
      case isFalse => contradiction
    have hperm := perm_promote (p := fun _ => true) rfl (h.filter_slot he)
    have hsplit : (l.window.entries.filter (fun x => x.slot ≠ e.slot)
        ++ (Window.new.entries ++ [e])).Perm l.window.entries := by
      simpa [Window.new] using hperm
    have hdrops := h.adopt he List.filter_sublist (List.nil_sublist _) hsplit
    rw [← clearLoop_released] at hdrops
    exact hdrops.congr rfl rfl rfl rfl

theorem Distinct.enterEpoch (h : l.Distinct) (epoch : RawUuid) :
    Drops l (l.enterEpoch epoch).1 (l.enterEpoch epoch).2 := by
  unfold SyncLadder.enterEpoch
  split
  case isTrue => exact h.reset.congr rfl rfl rfl rfl
  case isFalse => exact .same rfl rfl rfl rfl

/-- The room `push` makes: what it drops and what it keeps is the window,
and nothing kept is under the number. -/
theorem makeRoom_spec (w : Window) (n : Int) : ∃ dropped,
    (w.makeRoom n {}).2 = Released.pushAll {} (dropped.map Retained.slot) ∧
    (dropped ++ (w.makeRoom n {}).1).Perm w.entries ∧
    (w.makeRoom n {}).1.Sublist (w.entries.filter fun e => ¬ e.stateNum = n) := by
  have hpart : (w.entries.filter (fun e => e.stateNum = n)
      ++ w.entries.filter fun e => ¬ e.stateNum = n).Perm w.entries := by
    simpa only [decide_not] using List.filter_append_perm _ w.entries
  have hkept := replaceLoop_eq n w.entries {}
  have hreleased := replaceLoop_released n w.entries {}
  unfold Window.makeRoom
  dsimp only
  by_cases hfull : (replaceLoop n w.entries {}).1.length = retainedSentStates
  case neg =>
    grind
  case pos =>
    rw [if_pos hfull, hkept, hreleased]
    rw [hkept] at hfull
    cases hrest : w.entries.filter fun e => ¬ e.stateNum = n with
    | nil =>
      rw [hrest] at hfull
      contradiction
    | cons oldest rest =>
      rw [hrest] at hpart
      refine ⟨(w.entries.filter fun e => e.stateNum = n) ++ [oldest], ?_, ?_, ?_⟩
      · simp [Window.evictOldest, Released.pushAll]
      · simpa [Window.evictOldest] using hpart
      · exact List.sublist_cons_self oldest rest

/-- What a commit does: the slot it mints joins the window under its
number, and whatever made room for it is released. -/
structure Takes (l l' : SyncLadder) (released : Released) (slot : UInt32) (n : Int) : Prop where
  split : (released.slots ++ l'.reachable).Perm (l.reachable ++ [slot])
  window : ∃ kept, l'.window.entries = kept ++ [⟨n, slot⟩] ∧
    kept.Sublist (l.window.entries.filter fun e => ¬ e.stateNum = n)
  baseSlot : l'.baseSlot = l.baseSlot
  ackedStateNum : l'.ackedStateNum = l.ackedStateNum

theorem takes_commit (l : SyncLadder) (n : Int) :
    Takes l (l.commit n).2 (l.commit n).1.released l.nextSlot n := by
  obtain ⟨dropped, hreleased, hperm, hkept⟩ := makeRoom_spec l.window n
  refine ⟨?_, ⟨_, rfl, hkept⟩, rfl, rfl⟩
  have hlength := hperm.length_eq
  have hfits := l.window.fits
  rw [List.length_append] at hlength
  have hslots : (l.commit n).1.released.slots = dropped.map Retained.slot := by
    show (l.window.makeRoom n {}).2.slots = _
    rw [hreleased, Released.slots_pushAll]
    · rfl
    · simp only [List.length_nil, List.length_map, maxReleased]
      omega
  have hreachable : (l.commit n).2.reachable
      = ((l.window.makeRoom n {}).1.map Retained.slot ++ [l.nextSlot]) ++ l.baseSlot.toList := by
    show ((l.window.makeRoom n {}).1 ++ [(⟨n, l.nextSlot⟩ : Retained)]).map Retained.slot ++ _ = _
    rw [List.map_append]
    rfl
  rw [hslots, hreachable]
  refine List.perm_iff_count.mpr fun x => ?_
  have hcount := List.perm_iff_count.mp (hperm.map Retained.slot) x
  simp only [reachable, List.map_append, List.count_append] at hcount ⊢
  omega

theorem Drops.distinct (hdrops : Drops l l' released) (h : l.Distinct) : l'.Distinct where
  slots := (List.nodup_append.mp (hdrops.split.nodup_iff.mpr h.slots)).2.1
  real hmem := h.real (hdrops.split.mem_iff.mp (List.mem_append_right _ hmem))
  nums := h.nums.sublist (hdrops.window.map _)

theorem Takes.distinct (htakes : Takes l l' released slot n) (h : l.Distinct) (hfresh : slot ∉ l.reachable)
    (hreal : slot ≠ noSlot) : l'.Distinct where
  slots := by
    have hnew : (l.reachable ++ [slot]).Nodup :=
      List.nodup_append.mpr ⟨h.slots, by simp, by grind⟩
    exact (List.nodup_append.mp (htakes.split.nodup_iff.mpr hnew)).2.1
  real hmem := by
    rcases List.mem_append.mp (htakes.split.mem_iff.mp (List.mem_append_right _ hmem)) with hold | hnew
    · exact h.real hold
    · exact hreal (List.mem_singleton.mp hnew).symm
  nums := by
    obtain ⟨kept, hentries, hkept⟩ := htakes.window
    rw [hentries, List.map_append]
    refine List.nodup_append.mpr ⟨?_, by simp, ?_⟩
    · exact h.nums.sublist ((hkept.trans List.filter_sublist).map _)
    · intro a ha b hb heq
      obtain ⟨e, he, rfl⟩ := List.mem_map.mp ha
      have hother := (List.mem_filter.mp (hkept.subset he)).2
      simp only [List.map_cons, List.map_nil, List.mem_singleton] at hb
      simp [heq, hb] at hother

end SyncLadder

namespace SyncLadder

variable {l : SyncLadder}

theorem applyPendingAck_cases (l : SyncLadder) : l.applyPendingAck.1.pendingAck = none ∧
    l.applyPendingAck.1.sentEpoch = l.sentEpoch ∧
    ((l.applyPendingAck.1.baseSlot = l.baseSlot ∧
        l.applyPendingAck.1.ackedStateNum = l.ackedStateNum) ∨
      l.pendingAck = some l.applyPendingAck.1.ackedStateNum) := by
  unfold SyncLadder.applyPendingAck
  cases hpending : l.pendingAck with
  | none => exact ⟨hpending, rfl, .inl ⟨rfl, rfl⟩⟩
  | some n =>
    dsimp only
    cases l.window.find n with
    | none => exact ⟨rfl, rfl, .inl ⟨rfl, rfl⟩⟩
    | some e =>
      dsimp only
      split
      case isTrue => exact ⟨rfl, rfl, .inr rfl⟩
      case isFalse => exact ⟨rfl, rfl, .inr rfl⟩

theorem resubscribe_cases (l : SyncLadder) (knownEpoch : RawUuid) (knownStateNum : Int)
    (contributesSize followsFocus : Bool) :
    (l.resubscribe knownEpoch knownStateNum contributesSize followsFocus).1.pendingAck
      = l.pendingAck ∧
    (l.resubscribe knownEpoch knownStateNum contributesSize followsFocus).1.sentEpoch
      = l.sentEpoch ∧
    ((l.claimed knownEpoch knownStateNum = none ∧
        (l.resubscribe knownEpoch knownStateNum contributesSize followsFocus).1.window.entries = [] ∧
        (l.resubscribe knownEpoch knownStateNum contributesSize followsFocus).1.baseSlot = none) ∨
      (l.claimed knownEpoch knownStateNum ≠ none ∧ l.sentEpoch = some knownEpoch ∧
        (l.resubscribe knownEpoch knownStateNum contributesSize followsFocus).1.ackedStateNum
          = knownStateNum)) := by
  have hsame : { l with contributesSize, followsFocus, outstanding := none }.claimed knownEpoch
      knownStateNum = l.claimed knownEpoch knownStateNum := rfl
  unfold SyncLadder.resubscribe
  dsimp only
  rw [hsame]
  cases hclaimed : l.claimed knownEpoch knownStateNum with
  | none => exact ⟨rfl, rfl, .inl ⟨rfl, rfl, rfl⟩⟩
  | some e =>
    unfold claimed at hclaimed
    split at hclaimed
    case isTrue hepoch => exact ⟨rfl, rfl, .inr ⟨by simp, hepoch.1, (mem_of_find hclaimed).2⟩⟩
    case isFalse => contradiction

/-- What an epoch leaves: the ladder as it was, or one with nothing to
reach. -/
theorem enterEpoch_cases (l : SyncLadder) (epoch : RawUuid) :
    (l.enterEpoch epoch).1.pendingAck = l.pendingAck ∧
    (l.enterEpoch epoch).1.sentEpoch = some epoch ∧
    ((l.resetFirst epoch = true ∧ (l.enterEpoch epoch).1.window.entries = [] ∧
        (l.enterEpoch epoch).1.baseSlot = none ∧ (l.enterEpoch epoch).1.needsSnapshot = true) ∨
      (l.resetFirst epoch = false ∧ l.enterEpoch epoch = ({ l with sentEpoch := some epoch }, {}))) := by
  unfold SyncLadder.enterEpoch
  cases hreset : l.resetFirst epoch with
  | true => exact ⟨rfl, rfl, .inl ⟨rfl, rfl, rfl, rfl⟩⟩
  | false => exact ⟨rfl, rfl, .inr ⟨rfl, rfl⟩⟩

theorem sentEpoch_of_not_reset {epoch sent : RawUuid} (h : l.resetFirst epoch = false)
    (hsent : l.sentEpoch = some sent) : sent = epoch := by
  simpa [resetFirst, hsent] using h

end SyncLadder

/-- The slots a plan released. -/
def Plan.releasedSlots : Plan → List UInt32
  | .hold => []
  | .send frame => frame.released.slots

/-- Whether a planned frame resets the document first. -/
def Planned.resets {τ : Type} : Planned τ → Bool
  | .snapshot true => true
  | _ => false

namespace Retention

variable {τ : Type}
variable {r : Retention τ}

theorem plan_hold (h : r.ladder.outstanding.isSome) (epoch : RawUuid) :
    r.plan epoch = (.hold, r) ∧ r.ladder.plan epoch = (.hold, r.ladder) := by
  have hplan : r.ladder.plan epoch = (.hold, r.ladder) := if_pos h
  exact ⟨by simp only [plan, hplan], hplan⟩

/-- A plan that answers a frame enters the epoch and drops what that
releases; it resets exactly when the document is another one. -/
theorem plan_send (h : ¬ r.ladder.outstanding.isSome) (epoch : RawUuid) :
    (r.plan epoch).2 = ⟨(r.ladder.enterEpoch epoch).1,
      dropReleased r.held (r.ladder.enterEpoch epoch).2⟩ ∧
    ∃ frame, r.ladder.plan epoch = (.send frame, (r.ladder.enterEpoch epoch).1) ∧
      frame.released = (r.ladder.enterEpoch epoch).2 ∧
      frame.resetFirst = r.ladder.resetFirst epoch := by
  refine ⟨?_, _, if_neg h, rfl, rfl⟩
  unfold plan
  rw [SyncLadder.plan, if_neg h]
  dsimp only
  split
  case isTrue => rfl
  case isFalse => split <;> rfl

theorem commit_eq (h : r.ladder.nextSlot ≠ noSlot) (n : Int) (payload : τ) :
    r.commit n payload = ⟨(r.ladder.commit n).2,
      (dropReleased r.held (r.ladder.commit n).1.released).insert r.ladder.nextSlot payload⟩ := by
  have hslot : (r.ladder.commit n).1.slot = r.ladder.nextSlot := rfl
  simp only [commit, hslot]
  rw [if_pos h]

theorem resets_plan (h : ¬ r.ladder.outstanding.isSome) (epoch : RawUuid) :
    (r.plan epoch).1.resets = r.ladder.resetFirst epoch := by
  obtain ⟨_, _, hcases⟩ := r.ladder.enterEpoch_cases epoch
  unfold plan
  rw [SyncLadder.plan, if_neg h]
  dsimp only
  rcases hcases with ⟨hreset, _, _, hneeds⟩ | ⟨hsame, _⟩
  · simp [hneeds, hreset, Planned.resets]
  · rw [hsame]
    split
    case isTrue => rfl
    case isFalse => split <;> rfl

theorem plan_ne_hold (h : ¬ r.ladder.outstanding.isSome) (epoch : RawUuid) : (r.plan epoch).1 ≠ .hold := by
  unfold plan
  rw [SyncLadder.plan, if_neg h]
  dsimp only
  split
  case isTrue => simp
  case isFalse => split <;> simp

/-- A diff is against the base the ladder held before the call, in an epoch
that resets nothing. -/
theorem plan_diff {r' : Retention τ} {epoch : RawUuid} {n : Int} {base : τ}
    (h : r.plan epoch = (.diff n base, r')) : ∃ slot, r.ladder.baseSlot = some slot ∧
    r.ladder.ackedStateNum = n ∧ r.held[slot]? = some base ∧ r.ladder.resetFirst epoch = false := by
  by_cases hfree : r.ladder.outstanding.isSome
  case pos =>
    rw [(plan_hold hfree epoch).1] at h
    simp at h
  case neg =>
    obtain ⟨_, _, hcases⟩ := r.ladder.enterEpoch_cases epoch
    unfold plan at h
    rw [SyncLadder.plan, if_neg hfree] at h
    dsimp only at h
    rcases hcases with ⟨_, _, _, hneeds⟩ | ⟨hsame, heq⟩
    · simp [hneeds] at h
    · rw [heq] at h
      split at h
      case isTrue => simp at h
      case isFalse hdiff =>
        cases hslot : r.ladder.baseSlot with
        | none => simp [hslot] at hdiff
        | some slot =>
          rw [hslot] at h
          split at h
          case h_1 => simp at h
          case h_2 base' hheld =>
            simp only [Prod.mk.injEq, Planned.diff.injEq] at h
            obtain ⟨⟨hnum, rfl⟩, _⟩ := h
            exact ⟨slot, rfl, hnum, hheld, hsame⟩

end Retention

end SlopDesk.Document
