/-
SlopDesk.Session.Outbox — one pane's outbound frame queue
(`slopdesk-muxsession/src/outbox.rs`), the payloads its slots name
(`Outbound` of `slopdesk-hostsession/src/shared.rs`) and the drain that
numbers what it takes (`slopdesk-hostsession/src/drain.rs`).

The queue holds lengths and slots, the bytes are beside it. Slots and
lengths are `Nat`: the source's slots are `u64`, and a queue would have to
hold 2^64 chunks for two of them to meet.
-/
import SlopDesk.Base.BTree
import SlopDesk.Wire.Replay

namespace SlopDesk.Session

open SlopDesk.Base
open SlopDesk.Mux (MuxFlowControl)
open SlopDesk.Wire (ReplayOp PaneOp ReplayBuffer ReplaySession WireMessage)

abbrev Slot := Nat

inductive Item where
  | chunk (slot : Slot) (len : Nat)
  | exit (code : Int32)
  deriving DecidableEq, Repr

inductive Frame where
  | output (firstSlot : Slot) (slots byteCount : Nat) (split : Bool)
  | exit (code : Int32)
  deriving DecidableEq, Repr

structure Outbox where
  queue : List Item
  nextSlot : Slot
  deriving DecidableEq, Repr

/-- The absorbing loop of `take`: the chunks that still fit join the frame,
and what is left of the queue is answered beside its two counts. -/
def absorb (cap : Nat) : (byteCount slots : Nat) → List Item → Nat × Nat × List Item
  | byteCount, slots, .chunk slot more :: rest =>
    if byteCount + more > cap then (byteCount, slots, .chunk slot more :: rest)
    else absorb cap (byteCount + more) (slots + 1) rest
  | byteCount, slots, queue => (byteCount, slots, queue)

namespace Outbox

def new : Outbox := ⟨[], 0⟩

def appendChunk (o : Outbox) (len : Nat) : Slot × Outbox :=
  (o.nextSlot, { queue := o.queue ++ [.chunk o.nextSlot len], nextSlot := o.nextSlot + 1 })

def appendExit (o : Outbox) (code : Int32) : Outbox := { o with queue := o.queue ++ [.exit code] }

def isEmpty (o : Outbox) : Bool := o.queue.isEmpty

/-- `take`, the cap clamped to a byte at least. -/
def take (o : Outbox) (cap : Nat) : Option (Frame × Outbox) :=
  let cap := max cap 1
  match o.queue with
  | [] => none
  | .exit code :: rest => some (.exit code, { o with queue := rest })
  | .chunk slot len :: rest =>
    -- the head keeps the remainder, under the same slot
    if len > cap then
      some (.output slot 1 cap true, { o with queue := .chunk slot (len - cap) :: rest })
    else
      let (byteCount, slots, queue) := absorb cap len 1 rest
      some (.output slot slots byteCount false, { o with queue })

end Outbox

/-! ## The payloads -/

structure Queued where
  bytes : List UInt8 := []
  control : List WireMessage := []
  deriving DecidableEq

structure Outbound where
  outbox : Outbox
  payloads : BTreeMap Slot Queued
  woken : Bool

inductive Ready where
  | output (bytes : List UInt8) (byteCount : Nat) (control : List WireMessage)
  | exit (code : Int32)
  deriving DecidableEq

def emptyFrame : Ready := .output [] 0 []

/-- The merging loop of `take_frame`: the payloads of `count` slots from
`slot` on, one after the other, and the map without them. -/
def gather (payloads : BTreeMap Slot Queued) (slot : Slot) :
    (count : Nat) → Queued × BTreeMap Slot Queued
  | 0 => ({}, payloads)
  | count + 1 =>
    match payloads[slot]? with
    | none => gather payloads (slot + 1) count
    | some queued =>
      let (rest, payloads) := gather (payloads.erase slot) (slot + 1) count
      ({ bytes := queued.bytes ++ rest.bytes, control := queued.control ++ rest.control }, payloads)

namespace Outbound

def new : Outbound := ⟨.new, ∅, false⟩

def appendChunk (out : Outbound) (bytes : List UInt8) (control : List WireMessage) : Outbound :=
  let (slot, outbox) := out.outbox.appendChunk bytes.length
  { outbox, payloads := out.payloads.insert slot { bytes, control }, woken := true }

def appendExit (out : Outbound) (code : Int32) : Outbound :=
  { out with outbox := out.outbox.appendExit code, woken := true }

/-- `take_frame`, under the cap `merge_cap` reads. -/
def takeFrame (out : Outbound) (cap : Nat) : Option (Ready × Outbound) :=
  match out.outbox.take cap with
  | none => none
  | some (.exit code, outbox) => some (.exit code, { out with outbox })
  | some (.output firstSlot slots byteCount split, outbox) =>
    if split then
      match out.payloads[firstSlot]? with
      | none => some (emptyFrame, { out with outbox })
      | some queued =>
        let prefixed := queued.bytes.take byteCount
        let payloads := out.payloads.insert firstSlot { bytes := queued.bytes.drop byteCount }
        some (.output prefixed prefixed.length queued.control, { out with outbox, payloads })
    else if slots = 1 then
      let queued := out.payloads[firstSlot]?.getD {}
      some (.output queued.bytes queued.bytes.length queued.control,
        { out with outbox, payloads := out.payloads.erase firstSlot })
    else
      let (queued, payloads) := gather out.payloads firstSlot slots
      some (.output queued.bytes queued.bytes.length queued.control, { out with outbox, payloads })

end Outbound

/-! ## The drain -/

/-- What the drain sent: a frame under the number the ring gave it, or the
exit code. -/
inductive Shipped where
  | output (seq : Int) (bytes : List UInt8) (control : List WireMessage)
  | exit (code : Int32)
  deriving DecidableEq

/-- What the ring does besides numbering frames. -/
inductive RingOp where
  | ack (upTo : Int)
  | setClientOnline (online : Bool)
  | captureFold
  | adoptFold (index : Nat) (rendered : List UInt8)
  | composeSnapshot (after : Int) (rendered : List UInt8)

def RingOp.toPaneOp : RingOp → PaneOp
  | .ack upTo => .replay (.ack upTo)
  | .setClientOnline online => .replay (.setClientOnline online)
  | .captureFold => .replay .captureFold
  | .adoptFold index rendered => .replay (.adoptFold index rendered)
  | .composeSnapshot after rendered => .composeSnapshot after rendered

/-- A pane's way out: the queue, the frame the drain holds between taking
it and numbering it, the ring, and what was sent so far. -/
structure Outlet where
  out : Outbound
  inHand : Option Ready
  replay : ReplaySession
  shipped : List Shipped

/-- One step: a producer's append, the drain's two steps, or anything else
that happens to the ring. The drain is one thread, so it takes nothing
while it holds a frame. -/
inductive OutletOp where
  | appendChunk (bytes : List UInt8) (control : List WireMessage)
  | appendExit (code : Int32)
  | takeFrame (cap : Nat)
  | ship
  | ring (op : RingOp)

namespace Outlet

def start (b : ReplayBuffer) : Outlet := ⟨.new, none, .start b, []⟩

/-- `ship` and `deliver_exit`: a frame is numbered by `sequence`. -/
def ship (o : Outlet) : Outlet :=
  match o.inHand with
  | none => o
  | some (.exit code) => { o with inHand := none, shipped := o.shipped ++ [.exit code] }
  | some (.output bytes _ control) =>
    let replay := { o.replay with
      buffer := o.replay.buffer.append bytes, appended := o.replay.appended ++ [bytes] }
    { o with
      inHand := none
      replay
      shipped := o.shipped ++ [.output replay.buffer.highestSeq bytes control] }

def step (mux : MuxFlowControl) (o : Outlet) : OutletOp → Outlet
  | .appendChunk bytes control => { o with out := o.out.appendChunk bytes control }
  | .appendExit code => { o with out := o.out.appendExit code }
  | .takeFrame cap =>
    match o.inHand, o.out.takeFrame cap with
    | none, some (ready, out) => { o with inHand := some ready, out }
    | _, _ => o
  | .ship => o.ship
  | .ring op => { o with replay := o.replay.paneStep mux op.toPaneOp }

end Outlet

end SlopDesk.Session
