/-
SlopDesk.Session.ResizeFold — the size fold of one pane
(`slopdesk-muxsession/src/resize_fold.rs`) and the driver that applies it
(`slopdesk-hostsession/src/resize.rs`, `timer.rs`).

Every method of the driver takes the fold's lock, lets go of it and only
then touches the timer table, and a timer's body takes the locks in its
turn. The driver is therefore cut into those critical sections: a decision
waits in `arming` until it reaches the table, an override waits in
`applying` until it is applied, and the timer thread's body waits in
`running`. Any other section may run in between.
-/
import SlopDesk.Session.Fanout

namespace SlopDesk.Session

open SlopDesk.Base

structure Grid where
  cols : UInt16
  rows : UInt16
  px : UInt16
  py : UInt16
  deriving DecidableEq, Repr

structure Contribution where
  sizePassive : Bool
  offer : Option Grid
  deriving DecidableEq, Repr

structure ArmDecision where
  armSettle : Bool
  generation : UInt64
  deriving DecidableEq, Repr

structure OfferDecision where
  armDebounce : Bool
  generation : UInt64
  deriving DecidableEq, Repr

structure ResizeFold where
  contributions : BTreeMap SubscriberId Contribution
  openedSizePassive : Bool
  ctlOverride : Option Grid
  resolved : Option Grid
  generation : UInt64
  settlePending : Bool

def creditsOffer (contribution : Contribution) (passiveDecides : Bool) : Bool :=
  !contribution.sizePassive || passiveDecides

namespace ResizeFold

def new (openedSizePassive : Bool) : ResizeFold := ⟨∅, openedSizePassive, none, none, 0, false⟩

def votingCount (f : ResizeFold) : Nat :=
  (f.contributions.toList.filter fun e => !e.2.sizePassive).length

/-- The fold of two offers: the smaller grid, with the first one's pixels. -/
def smaller (folded offer : Grid) : Grid :=
  { folded with cols := min folded.cols offer.cols, rows := min folded.rows offer.rows }

/-- `fold`: with no voter the size-passive members decide. -/
def fold (f : ResizeFold) : Option Grid :=
  let voters := f.votingCount
  let credited := f.contributions.toList.filter fun e => voters = 0 || !e.2.sizePassive
  match credited.filterMap fun e => e.2.offer with
  | [] => none
  | first :: rest => some (rest.foldl smaller first)

def armSettleIfSetChanged (f : ResizeFold) (before : Nat) : ArmDecision × ResizeFold :=
  let after := f.votingCount
  if before = after ∨ before = 0 ∨ after = 0 then (⟨false, f.generation⟩, f)
  else (⟨true, f.generation + 1⟩, { f with generation := f.generation + 1, settlePending := true })

/-- `add_contributor`: an existing member keeps its offer. -/
def addContributor (f : ResizeFold) (subscriber : SubscriberId) (sizePassive : Bool) :
    ArmDecision × ResizeFold :=
  let contribution := match f.contributions[subscriber]? with
    | some existing => { existing with sizePassive }
    | none => ⟨sizePassive, none⟩
  { f with contributions := f.contributions.insert subscriber contribution }.armSettleIfSetChanged
    f.votingCount

def removeContributor (f : ResizeFold) (subscriber : SubscriberId) : ArmDecision × ResizeFold :=
  match f.contributions[subscriber]? with
  | none => (⟨false, f.generation⟩, f)
  | some _ =>
    { f with contributions := f.contributions.erase subscriber }.armSettleIfSetChanged f.votingCount

/-- `note_offer`: a stranger's offer registers it, and a credited one
retires the override. -/
def noteOffer (f : ResizeFold) (subscriber : SubscriberId) (offer : Grid) :
    OfferDecision × ResizeFold :=
  let contribution : Contribution := match f.contributions[subscriber]? with
    | some existing => { existing with offer := some offer }
    | none => ⟨f.openedSizePassive, some offer⟩
  let f := { f with contributions := f.contributions.insert subscriber contribution }
  let f := if creditsOffer contribution (f.votingCount = 0) then { f with ctlOverride := none } else f
  if f.settlePending then (⟨false, f.generation⟩, f)
  else (⟨true, f.generation + 1⟩, { f with generation := f.generation + 1 })

def setCtlOverride (f : ResizeFold) (grid : Grid) : ResizeFold :=
  { f with ctlOverride := some grid, generation := f.generation + 1 }

/-- What the fold answers when no generation is quoted. -/
def target (f : ResizeFold) : Option Grid := f.ctlOverride.or f.fold

def resolve (f : ResizeFold) (ifGeneration : Option UInt64) : Option Grid × ResizeFold :=
  if ifGeneration.any (· ≠ f.generation) then (none, f)
  else
    match f.target with
    | none => (none, f)
    | some grid => (some grid, { f with resolved := some grid })

/-- `clear_members`: the generation stays. -/
def clearMembers (f : ResizeFold) : ResizeFold :=
  { f with contributions := ∅, ctlOverride := none, settlePending := false }

def clearSettle (f : ResizeFold) (ifGeneration : UInt64) : ResizeFold :=
  if f.generation = ifGeneration then { f with settlePending := false } else f

end ResizeFold

/-! ## The driver -/

/-- `Timer`, the two kinds whose body calls back into the fold. -/
inductive Timer where
  | resize
  | settle
  deriving DecidableEq, Repr

/-- `Resize`. Each entry of the timer table is the generation its body will
quote; `windowSize` is the grid the PTY was last given. -/
structure Resize where
  fold : ResizeFold
  slots : Timer → Option UInt64
  arming : List (Timer × UInt64)
  applying : Nat
  running : Option (Timer × UInt64)
  windowSize : Option Grid

/-- The critical sections. -/
inductive ResizeStep where
  | addContributor (subscriber : SubscriberId) (sizePassive : Bool)
  | removeContributor (subscriber : SubscriberId)
  | offer (subscriber : SubscriberId) (grid : Grid)
  | setCtlOverride (grid : Grid)
  | applyOverride
  | arm (timer : Timer) (generation : UInt64)
  | fire (timer : Timer)
  | body
  | flush
  | clearMembers
  deriving DecidableEq, Repr

namespace Resize

def new (openedSizePassive : Bool) : Resize :=
  ⟨.new openedSizePassive, fun _ => none, [], 0, none, none⟩

/-- `apply`: the resolution and the write, in one section of the writer. -/
def apply (r : Resize) (ifGeneration : Option UInt64) : Resize :=
  match r.fold.resolve ifGeneration with
  | (none, fold) => { r with fold }
  | (some wanted, fold) =>
    if r.windowSize = some wanted then { r with fold } else { r with fold, windowSize := some wanted }

/-- What `arm_settle` is given. -/
def armSettle (r : Resize) (decided : ArmDecision × ResizeFold) : Resize :=
  { r with
    fold := decided.2
    arming := if decided.1.armSettle then (.settle, decided.1.generation) :: r.arming else r.arming }

/-- What `offer` is given. -/
def armDebounce (r : Resize) (decided : OfferDecision × ResizeFold) : Resize :=
  { r with
    fold := decided.2
    arming := if decided.1.armDebounce then (.resize, decided.1.generation) :: r.arming else r.arming }

/-- `Timers::arm`: the slot is overwritten. -/
def arm (r : Resize) (timer : Timer) (generation : UInt64) : Resize :=
  if (timer, generation) ∈ r.arming then
    { r with
      arming := r.arming.erase (timer, generation)
      slots := fun t => if t = timer then some generation else r.slots t }
  else r

/-- The timer thread takes a slot's body out of the table. -/
def fire (r : Resize) (timer : Timer) : Resize :=
  match r.running, r.slots timer with
  | none, some generation =>
    { r with
      running := some (timer, generation)
      slots := fun t => if t = timer then none else r.slots t }
  | _, _ => r

/-- One section of the body the timer thread runs. The settle's first
releases the latch; what it then does is the debounce's body. -/
def body (r : Resize) : Resize :=
  match r.running with
  | none => r
  | some (.settle, generation) =>
    { r with fold := r.fold.clearSettle generation, running := some (.resize, generation) }
  | some (.resize, generation) => { r.apply (some generation) with running := none }

/-- One critical section. -/
def step (r : Resize) : ResizeStep → Resize
  | .addContributor subscriber sizePassive => r.armSettle (r.fold.addContributor subscriber sizePassive)
  | .removeContributor subscriber => r.armSettle (r.fold.removeContributor subscriber)
  | .offer subscriber grid => r.armDebounce (r.fold.noteOffer subscriber grid)
  | .setCtlOverride grid =>
    { r with fold := r.fold.setCtlOverride grid, applying := r.applying + 1 }
  | .applyOverride =>
    if r.applying = 0 then r else { r.apply none with applying := r.applying - 1 }
  | .arm timer generation => r.arm timer generation
  | .fire timer => r.fire timer
  | .body => r.body
  | .flush => r.apply none
  | .clearMembers => { r with fold := r.fold.clearMembers }

end Resize

end SlopDesk.Session
