/-
SlopDesk.Mux.Channels — the channels of a connection.
-/
import Mathlib.Algebra.GroupWithZero.Nat
import SlopDesk.Base.HashMap

/-! # The table of logical channels on one connection
(`slopdesk-wire/src/mux/channels.rs`).

A channel's entry outlives its close so that its id is not taken up
again, and a ring of `TERMINAL_RING_CAP` slots bounds how many such
entries there are: the id that goes into a full ring overwrites the
oldest one, whose entry is forgotten.
-/

namespace SlopDesk.Mux

open SlopDesk.Base

/-- `TERMINAL_RING_CAP`. -/
def terminalRingCap : Nat := 1024

inductive ChannelState where
  | idle
  | open
  | halfClosed
  | closed
  deriving DecidableEq, Repr

inductive FrameKind where
  | channelOpen
  | channelOpenAck
  | channelData
  | channelClose
  | windowAdjust
  deriving DecidableEq, Repr

inductive DropReason where
  | nonOpenChannel
  | unknownChannel
  deriving DecidableEq, Repr

inductive RoutingDecision where
  | deliverData (channelId : UInt32)
  | lifecycle (channelId : UInt32) (state : ChannelState)
  | drop (channelId : UInt32) (reason : DropReason)
  deriving DecidableEq, Repr

structure ChannelTable where
  states : HashMap UInt32 ChannelState
  lastAllocated : UInt32
  terminalRing : List UInt32
  terminalRingHead : Nat

namespace ChannelTable

def new : ChannelTable where
  states := ∅
  lastAllocated := 0
  terminalRing := []
  terminalRingHead := 0

def stateOf (t : ChannelTable) (id : UInt32) : Option ChannelState := t.states.lookup id

/-- `states.insert`. -/
def setState (t : ChannelTable) (id : UInt32) (state : ChannelState) : ChannelTable :=
  { t with states := t.states.insert id state }

def isOpen (t : ChannelTable) (id : UInt32) : Bool := t.stateOf id = some .open

def liveChannelIds (t : ChannelTable) : List UInt32 :=
  (t.states.entries.filter fun entry => entry.2 ≠ .closed).map (·.1)

def stateCount (t : ChannelTable) : Nat := t.states.entries.length

/-- `note_terminal`: the id takes the next free slot, or the oldest one,
whose id is then forgotten. -/
def noteTerminal (t : ChannelTable) (id : UInt32) : ChannelTable :=
  if t.terminalRing.length < terminalRingCap then
    { t with terminalRing := t.terminalRing ++ [id] }
  else
    let next := t.terminalRingHead + 1
    { t with
      terminalRing := t.terminalRing.set t.terminalRingHead id
      states := match t.terminalRing[t.terminalRingHead]? with
        | some evicted => if evicted ≠ id then t.states.erase evicted else t.states
        | none => t.states
      terminalRingHead := if next = terminalRingCap then 0 else next }

/-- The id `allocate` hands out: the first is 1, each later one two more,
up to the largest `u32`. -/
def nextId (t : ChannelTable) : UInt32 :=
  if t.lastAllocated = 0 then 1 else .ofNat (min (t.lastAllocated.toNat + 2) (2 ^ 32 - 1))

def allocate (t : ChannelTable) : UInt32 × ChannelTable :=
  (t.nextId, { t with lastAllocated := t.nextId }.setState t.nextId .idle)

/-- `open`. -/
def «open» (t : ChannelTable) (id : UInt32) : ChannelTable :=
  match t.stateOf id with
  | none | some .idle | some .open => t.setState id .open
  | some .halfClosed | some .closed => t

def reject (t : ChannelTable) (id : UInt32) : ChannelState × ChannelTable :=
  let t' := match t.stateOf id with
    | some .idle | some .open => (t.setState id .closed).noteTerminal id
    | some .halfClosed | some .closed | none => t
  ((t'.stateOf id).getD .closed, t')

/-- `advance_close`: one step of the close handshake, whichever side
takes it. A close for an id without an entry makes none. -/
def advanceClose (t : ChannelTable) (id : UInt32) : ChannelState × ChannelTable :=
  match t.stateOf id with
  | some .idle | some .open => (.halfClosed, (t.setState id .halfClosed).noteTerminal id)
  | some .halfClosed => (.closed, t.setState id .closed)
  | some .closed => (.closed, t)
  | none => (.closed, t)

def localClose (t : ChannelTable) (id : UInt32) : ChannelState × ChannelTable := t.advanceClose id

def remoteClose (t : ChannelTable) (id : UInt32) : ChannelState × ChannelTable := t.advanceClose id

def lifecycle (t : ChannelTable) (id : UInt32) (absent : ChannelState) : RoutingDecision :=
  .lifecycle id ((t.stateOf id).getD absent)

def route (t : ChannelTable) (kind : FrameKind) (id : UInt32) (accepted : Bool) :
    RoutingDecision × ChannelTable :=
  match kind with
  | .channelData =>
    if t.isOpen id then
      (.deliverData id, t)
    else
      (.drop id (if (t.stateOf id).isSome then .nonOpenChannel else .unknownChannel), t)
  | .channelOpen =>
    let t' := t.open id
    (t'.lifecycle id .open, t')
  | .channelOpenAck =>
    if accepted then
      -- an accept advances an id already tracked, and makes no entry
      let t' := if (t.stateOf id).isSome then t.open id else t
      (t'.lifecycle id .closed, t')
    else
      let (state, t') := t.reject id
      (.lifecycle id state, t')
  | .channelClose =>
    let (state, t') := t.remoteClose id
    (.lifecycle id state, t')
  | .windowAdjust => (t.lifecycle id .closed, t)

/-! ## Runs -/

/-- One operation on the table. -/
inductive Op where
  | allocate
  | open (id : UInt32)
  | reject (id : UInt32)
  | localClose (id : UInt32)
  | remoteClose (id : UInt32)
  | route (kind : FrameKind) (id : UInt32) (accepted : Bool)
  deriving DecidableEq, Repr

/-- The table after one operation. -/
def step (t : ChannelTable) : Op → ChannelTable
  | .allocate => t.allocate.2
  | .open id => t.open id
  | .reject id => (t.reject id).2
  | .localClose id => (t.localClose id).2
  | .remoteClose id => (t.remoteClose id).2
  | .route kind id accepted => (t.route kind id accepted).2

end ChannelTable

end SlopDesk.Mux
