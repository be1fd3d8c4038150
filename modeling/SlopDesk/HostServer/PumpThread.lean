/-
SlopDesk.HostServer.PumpThread — one subscriber's inbox and the thread that
drains it (`slopdesk-hostserver/src/subscriber.rs`).

The pump is the one of `Subscriber.lean`, here with what a channel that
stays up has no use for: the start of the thread, `close`, a send that
fails, and the condition variable the thread waits on. Each time a caller or
the thread takes the lock is one step, and so is each frame sent; a frame is
only its outcome. `Pump.parked` is the head of `run`'s loop, where the
thread also stands after a `drain` that returned `true`. A thread that
waits is let go by every input, and may be without one (`wake`). Left out:
the presence record, which no decision here reads, and the observer's log.
-/
import SlopDesk.HostServer.Subscriber

namespace SlopDesk.HostServer

open SlopDesk.Base
open SlopDesk.Document
open SlopDesk.Wire

/-- What `close` leaves of an inbox. -/
def Inner.close (i : Inner) : Inner :=
  { i with
    pendingState := none
    pendingRoster := none
    pendingSubscribe := none
    pendingResults := []
    retention := i.retention.clear }

/-- `WorkspaceSubscriber`, with its thread. -/
structure WorkspaceSubscriber where
  inner : Inner
  closed : Bool
  pumping : Bool
  waiting : Bool
  pump : Pump

/-- A call on a subscriber, or a step of its thread. `sent` is what the
channel answers, where the step sends. -/
inductive SubscriberOp where
  | start
  | close
  | deliverState (offer : Offer)
  | deliverRoster (roster : List UInt8)
  | deliverResult (result : WorkspaceIntentResult)
  | noteAck (stateNum : Int)
  | noteResubscribe (request : WorkspaceSubscribe)
  | wake
  | pump (sent : Bool)

/-- The inputs: `deliver_*`, `note_ack`, `note_resubscribe` and `close`. -/
def SubscriberOp.isInput : SubscriberOp → Bool
  | .start | .wake | .pump _ => false
  | _ => true

/-- Whether it is a step of the thread's. -/
def SubscriberOp.isPump : SubscriberOp → Bool
  | .pump _ => true
  | _ => false

namespace WorkspaceSubscriber

def new (request : WorkspaceSubscribe) : WorkspaceSubscriber where
  inner := .new request
  closed := false
  pumping := false
  waiting := false
  pump := .parked

/-! ## The callers -/

def start (s : WorkspaceSubscriber) : WorkspaceSubscriber :=
  if s.pumping || s.closed then s else { s with pumping := true, waiting := false, pump := .parked }

def close (s : WorkspaceSubscriber) : WorkspaceSubscriber :=
  if s.closed then s else { s with closed := true, inner := s.inner.close, waiting := false }

/-- What the inputs share: nothing once closed, or a change of the inbox and
a wake. -/
def deliver (s : WorkspaceSubscriber) (change : Inner → Inner) : WorkspaceSubscriber :=
  if s.closed then s else { s with inner := change s.inner, waiting := false }

/-! ## The thread -/

/-- The end of `run`. -/
def leave (s : WorkspaceSubscriber) : WorkspaceSubscriber :=
  { s with pumping := false, pump := .parked }

/-- `send`, on the way to `next`: a dead link closes the subscriber and ends
the thread. -/
def send (s : WorkspaceSubscriber) (sent : Bool) (next : Pump) : WorkspaceSubscriber :=
  if sent then { s with pump := next } else s.close.leave

/-- The end of a turn of `drain`: another one, or its `true`. -/
def finish (s : WorkspaceSubscriber) (didSend : Bool) : WorkspaceSubscriber :=
  { s with pump := if didSend then .draining else .parked }

/-- `plan`, and what `drain` makes of it. -/
def plan (s : WorkspaceSubscriber) (offer : Offer) (didSend : Bool) : WorkspaceSubscriber :=
  let (planned, retention) := s.inner.retention.plan offer.epoch
  let s := { s with inner := { s.inner with retention } }
  match planned with
  | .hold => s.finish didSend
  | planned => { s with pump := .planned offer planned }

/-- `send_document`. A reset goes ahead on its own. -/
def sendDocument (s : WorkspaceSubscriber) (offer : Offer) (sent : Bool) :
    Planned HostWorkspaceState → WorkspaceSubscriber
  | .hold => { s with pump := .draining }
  | .snapshot true => s.send sent (.claimed offer (.snapshot false))
  | .snapshot false => s.send sent (.shipped offer)
  | .diff _ base =>
    if (offer.state.diffFrom base).isEmpty then { s with pump := .draining }
    else s.send sent (.shipped offer)

/-- What `drain` does with one inbox after the ack, a frame a step. -/
def sendInbox (s : WorkspaceSubscriber) (loose : RawUuid) (inbox : Inbox) (didSend sent : Bool) :
    WorkspaceSubscriber :=
  match inbox.results, inbox.roster, inbox.offer with
  | _ :: results, _, _ => s.send sent (.sending loose { inbox with results } true)
  | [], some _, _ => s.send sent (.sending loose { inbox with roster := none } true)
  | [], none, some offer => s.plan offer didSend
  | [], none, none => s.finish didSend

/-- The next step of a thread that is not waiting. -/
def advance (s : WorkspaceSubscriber) (sent : Bool) : WorkspaceSubscriber :=
  match s.pump with
  | .parked =>
    if s.closed then s.leave
    else if s.inner.hasWork then { s with pump := .draining }
    else { s with waiting := true }
  | .draining =>
    if s.closed then s.leave
    else { s with inner := s.inner.takeInbox.2, pump := .taken s.inner.takeInbox.1 }
  | .taken inbox =>
    { s with
      pump := .resubscribed inbox
      inner := match inbox.subscribe with
        | some request => s.inner.applyResubscribe request
        | none => s.inner }
  | .resubscribed inbox =>
    { s with
      pump := .acked inbox
      inner := { s.inner with retention := s.inner.retention.applyPendingAck } }
  | .acked inbox =>
    { s with pump := .sending (looseEpoch s.inner.retention.ladder) inbox false }
  | .sending loose inbox didSend => s.sendInbox loose inbox didSend sent
  | .planned offer planned =>
    { s with pump := .claimed offer planned, inner := s.inner.claimPendingState }
  | .claimed offer planned => s.sendDocument offer sent planned
  | .shipped offer =>
    { s with
      pump := .draining
      inner := { s.inner with
        retention := s.inner.retention.commit offer.stateNum offer.state } }

/-- The thread's next step, if there is one. -/
def pumpStep (s : WorkspaceSubscriber) (sent : Bool) : WorkspaceSubscriber :=
  if s.pumping && !s.waiting then s.advance sent else s

/-- The subscriber after one step. -/
def step (s : WorkspaceSubscriber) : SubscriberOp → WorkspaceSubscriber
  | .start => s.start
  | .close => s.close
  | .deliverState offer => s.deliver (·.deliverState offer)
  | .deliverRoster roster => s.deliver (·.deliverRoster roster)
  | .deliverResult result => s.deliver (·.deliverResult result)
  | .noteAck stateNum => s.deliver (·.noteAck stateNum)
  | .noteResubscribe request => s.deliver (·.noteResubscribe request)
  | .wake => { s with waiting := false }
  | .pump sent => s.pumpStep sent

end WorkspaceSubscriber

end SlopDesk.HostServer
