/-
SlopDesk.HostServer.Subscriber — one workspace channel: the host's document,
the subscriber it is offered to, the link, and the client at the far end.

On the host (`slopdesk-hostserver/src/subscriber.rs`, `workspace.rs`,
`wsserve.rs`) the document's callers fill a subscriber's inbox and a pump
drains it. Each time either takes the subscriber's lock is one step here,
so every interleaving of the two is a run. On the client
(`WorkspaceChannelClient.swift`, `WorkspaceMirrorBox.swift`) a frame is
folded into the mirror and answered. The link carries frames one way and
requests the other, in order, and loses neither. A step that is not
enabled changes nothing. Left out: `close`, a send that fails, presence
updates, and the queue's wake; a roster is the payload it is sent as.
-/
import SlopDesk.Document.Mirror
import SlopDesk.Document.SyncLadder

namespace SlopDesk.HostServer

open SlopDesk.Base
open SlopDesk.Document
open SlopDesk.Wire

/-! ## What crosses the link -/

/-- `WireMessage::NEW_SESSION_ID`: sixteen zero bytes. -/
def newSessionId : RawUuid := ⟨List.replicate 16 0, rfl⟩

inductive WorkspaceEventKind where
  | snapshot | diff | presence | intentResult | reset
  deriving DecidableEq, Repr

def WorkspaceEventKind.asByte : WorkspaceEventKind → UInt8
  | .snapshot => 0
  | .diff => 1
  | .presence => 2
  | .intentResult => 3
  | .reset => 4

structure WorkspaceSubscribe where
  clientInstanceId : RawUuid
  clientKind : UInt8
  knownEpoch : RawUuid
  knownStateNum : Int
  flags : UInt8
  label : String
  deriving DecidableEq

def WorkspaceSubscribe.contributesSize (r : WorkspaceSubscribe) : Bool := r.flags &&& 1 ≠ 0

def WorkspaceSubscribe.followsFocus (r : WorkspaceSubscribe) : Bool := r.flags &&& 2 ≠ 0

structure WorkspaceIntent where
  intentId : RawUuid
  op : UInt8
  args : List UInt8
  deriving DecidableEq

/-- `WorkspaceIntentStatus::Applied`. -/
def statusApplied : UInt8 := 0

structure WorkspaceIntentResult where
  intentId : RawUuid
  status : UInt8
  deriving DecidableEq

namespace WorkspaceIntentResult

/-- `encode_into`. -/
def put (r : WorkspaceIntentResult) : Put := do
  putBytes r.intentId.bytes
  putU8 r.status

def encode (r : WorkspaceIntentResult) : List UInt8 := (r.put.run ByteWriter.new).2.intoVec

/-- The reads of `decode`. -/
def read : Decoder WorkspaceIntentResult := do
  let intentId ← readUuid
  let status ← readU8
  pure ⟨intentId, status⟩

def decode (payload : List UInt8) : Outcome WireError WorkspaceIntentResult := do
  let r ← read.run payload 0
  pure r.1

end WorkspaceIntentResult

/-- A request of the client's. -/
inductive WorkspaceRequest where
  | subscribe (request : WorkspaceSubscribe)
  | ack (stateNum : Int)
  | intent (intent : WorkspaceIntent)
  deriving DecidableEq

/-! ## The document -/

/-- `WorkspaceDocument`: its epoch and its state, behind the states it held
before. -/
structure WorkspaceDocument where
  epoch : RawUuid
  earlier : List HostWorkspaceState
  state : HostWorkspaceState

/-- `state_num`: the first state is number 1. -/
def WorkspaceDocument.stateNum (d : WorkspaceDocument) : Int := d.earlier.length + 1

/-- Every state, in the order they were numbered. -/
def WorkspaceDocument.states (d : WorkspaceDocument) : List HostWorkspaceState := d.earlier ++ [d.state]

/-- What `bump` makes current. -/
def WorkspaceDocument.advance (d : WorkspaceDocument) (next : HostWorkspaceState) : WorkspaceDocument :=
  { d with earlier := d.states, state := next }

/-! ## The subscriber -/

structure Offer where
  epoch : RawUuid
  stateNum : Int
  state : HostWorkspaceState

/-- The document as it is offered. -/
def WorkspaceDocument.offer (d : WorkspaceDocument) : Offer := ⟨d.epoch, d.stateNum, d.state⟩

/-- `Inner`, of a subscriber that is not closed. -/
structure Inner where
  clientInstanceId : RawUuid
  clientKind : UInt8
  label : String
  retention : Retention HostWorkspaceState
  pendingState : Option Offer
  pendingRoster : Option (List UInt8)
  pendingSubscribe : Option WorkspaceSubscribe
  pendingResults : List WorkspaceIntentResult

namespace Inner

def new (request : WorkspaceSubscribe) : Inner where
  clientInstanceId := request.clientInstanceId
  clientKind := request.clientKind
  label := request.label
  retention := .new request.contributesSize request.followsFocus
  pendingState := none
  pendingRoster := none
  pendingSubscribe := none
  pendingResults := []

def hasWork (i : Inner) : Bool :=
  i.pendingState.isSome || i.pendingRoster.isSome || i.pendingSubscribe.isSome
    || !i.pendingResults.isEmpty

def deliverState (i : Inner) (offer : Offer) : Inner := { i with pendingState := some offer }

def deliverRoster (i : Inner) (roster : List UInt8) : Inner := { i with pendingRoster := some roster }

def deliverResult (i : Inner) (result : WorkspaceIntentResult) : Inner :=
  { i with pendingResults := i.pendingResults ++ [result] }

def noteAck (i : Inner) (stateNum : Int) : Inner :=
  { i with retention := i.retention.noteAck stateNum }

def noteResubscribe (i : Inner) (request : WorkspaceSubscribe) : Inner :=
  { i with pendingSubscribe := some request }

def claimPendingState (i : Inner) : Inner := { i with pendingState := none }

def applyResubscribe (i : Inner) (request : WorkspaceSubscribe) : Inner :=
  { i with
    clientInstanceId := request.clientInstanceId
    clientKind := request.clientKind
    label := request.label
    retention := i.retention.resubscribe request.knownEpoch request.knownStateNum
      request.contributesSize request.followsFocus }

end Inner

structure Inbox where
  subscribe : Option WorkspaceSubscribe
  roster : Option (List UInt8)
  results : List WorkspaceIntentResult
  offer : Option Offer

/-- `take_inbox`: the offer is peeked, the rest is taken. -/
def Inner.takeInbox (i : Inner) : Inbox × Inner :=
  (⟨i.pendingSubscribe, i.pendingRoster, i.pendingResults, i.pendingState⟩,
    { i with pendingSubscribe := none, pendingRoster := none, pendingResults := [] })

def looseEpoch (l : SyncLadder) : RawUuid := l.sentEpoch.getD newSessionId

/-- Where the pump is: parked in `run`, or in `drain` after the lock it
last took. -/
inductive Pump where
  | parked
  | draining
  | taken (inbox : Inbox)
  | resubscribed (inbox : Inbox)
  | acked (inbox : Inbox)
  | sending (loose : RawUuid) (inbox : Inbox) (didSend : Bool)
  | planned (offer : Offer) (planned : Planned HostWorkspaceState)
  | claimed (offer : Offer) (planned : Planned HostWorkspaceState)
  | shipped (offer : Offer)

/-! ## The client -/

/-- A client: its identity, its mirror, and the intents it has not written
yet. -/
structure Client where
  clientInstanceId : RawUuid
  clientKind : UInt8
  label : String
  mirror : WorkspaceMirror
  intentQueue : List WorkspaceIntent

namespace Client

/-- The request of `sendSubscribe`. -/
def subscribeRequest (c : Client) : WorkspaceSubscribe where
  clientInstanceId := c.clientInstanceId
  clientKind := c.clientKind
  knownEpoch := c.mirror.epoch.getD newSessionId
  knownStateNum := c.mirror.knownStateNum
  flags := 0
  label := c.label

/-- The intent result of the box's `apply`. -/
def noteIntentResult (c : Client) (payload : List UInt8) : Client :=
  match WorkspaceIntentResult.decode payload with
  | .ok result => { c with
      mirror := (c.mirror.noteIntentResult result.intentId (result.status = statusApplied)).2 }
  | _ => c

/-- What `handle` sends for an outcome. -/
def answer (c : Client) : ApplyOutcome → List WorkspaceRequest
  | .applied stateNum => [.ack stateNum]
  | .needsResubscribe => [.subscribe c.subscribeRequest]
  | _ => []

/-- `handle`, after its sweep: the client, and what it sends. -/
def handle (c : Client) (f : DocumentFrame) : Client × List WorkspaceRequest :=
  if f.kind = WorkspaceEventKind.presence.asByte then (c, [])
  else if f.kind = WorkspaceEventKind.intentResult.asByte then (c.noteIntentResult f.payload, [])
  else
    let (outcome, mirror) := c.mirror.apply f.kind f.epoch f.baseStateNum f.newStateNum f.payload
    ({ c with mirror }, { c with mirror }.answer outcome)

/-- `send(intent:)`: nothing is staged when the applier refuses. -/
def stage (c : Client) (proposed : HostWorkspaceState → Option WorkspaceStateDiff)
    (intent : WorkspaceIntent) (issuedAt : Float) : Client :=
  match c.mirror.stageIntent proposed intent.intentId issuedAt with
  | (true, mirror) => { c with mirror, intentQueue := c.intentQueue ++ [intent] }
  | (false, _) => c

end Client

/-! ## The channel -/

/-- Where the host is with the request it took last. -/
inductive Handler where
  | idle
  | resubscribing
  | answering (result : WorkspaceIntentResult)
  deriving DecidableEq

/-- A document, one of its subscribers, and the client subscribed. -/
structure WorkspaceChannel where
  document : WorkspaceDocument
  inner : Inner
  pump : Pump
  handler : Handler
  link : List DocumentFrame
  uplink : List WorkspaceRequest
  client : Client

/-- One step of one party. `offer` is the `bump` of whoever changed the
document. -/
inductive ChannelOp where
  | offer (next : HostWorkspaceState)
  | deliverRoster (roster : List UInt8)
  | deliverResult (result : WorkspaceIntentResult)
  | hear (status : UInt8)
  | reply
  | pump
  | receive
  | sendSubscribe
  | stage (proposed : HostWorkspaceState → Option WorkspaceStateDiff) (intent : WorkspaceIntent)
      (issuedAt : Float)
  | sendIntent
  | expirePending (now timeout : Float)

namespace WorkspaceChannel

/-- The first subscribe: a new subscriber, offered the document as it is. -/
def start (document : WorkspaceDocument) (client : Client) : WorkspaceChannel where
  document
  inner := (Inner.new client.subscribeRequest).deliverState document.offer
  pump := .parked
  handler := .idle
  link := []
  uplink := []
  client

/-! ### The document's callers -/

/-- `bump`, for this subscriber. -/
def bump (c : WorkspaceChannel) (next : HostWorkspaceState) : WorkspaceChannel :=
  { c with
    document := c.document.advance next
    inner := c.inner.deliverState (c.document.advance next).offer }

/-- `WorkspaceService::handle`, of the request ahead: an intent was decided
with `status`. -/
def hear (c : WorkspaceChannel) (status : UInt8) : WorkspaceChannel :=
  match c.handler, c.uplink with
  | .idle, .ack stateNum :: uplink => { c with inner := c.inner.noteAck stateNum, uplink }
  | .idle, .subscribe request :: uplink =>
    { c with inner := c.inner.noteResubscribe request, handler := .resubscribing, uplink }
  | .idle, .intent intent :: uplink =>
    { c with handler := .answering ⟨intent.intentId, status⟩, uplink }
  | _, _ => c

/-- The rest of it: the document is offered again, or the result queued. -/
def reply (c : WorkspaceChannel) : WorkspaceChannel :=
  match c.handler with
  | .idle => c
  | .resubscribing => { c with inner := c.inner.deliverState c.document.offer, handler := .idle }
  | .answering result => { c with inner := c.inner.deliverResult result, handler := .idle }

/-! ### The pump -/

def send (c : WorkspaceChannel) (kind : WorkspaceEventKind) (epoch : RawUuid)
    (base new : Int) (payload : List UInt8) : WorkspaceChannel :=
  { c with link := c.link ++ [⟨kind.asByte, epoch, base, new, payload⟩] }

def take (c : WorkspaceChannel) : WorkspaceChannel :=
  { c with inner := c.inner.takeInbox.2, pump := .taken c.inner.takeInbox.1 }

/-- The end of a turn of `drain`: another one, or back to `run`. -/
def finish (c : WorkspaceChannel) (didSend : Bool) : WorkspaceChannel :=
  { c with pump := if didSend then .draining else .parked }

/-- `plan`, and what `drain` makes of it. -/
def plan (c : WorkspaceChannel) (offer : Offer) (didSend : Bool) : WorkspaceChannel :=
  let (planned, retention) := c.inner.retention.plan offer.epoch
  let c := { c with inner := { c.inner with retention } }
  match planned with
  | .hold => c.finish didSend
  | planned => { c with pump := .planned offer planned }

/-- The frames of `send_document`. A reset goes ahead on its own. -/
def sendDocument (c : WorkspaceChannel) (offer : Offer) :
    Planned HostWorkspaceState → WorkspaceChannel
  | .hold => { c with pump := .draining }
  | .snapshot true =>
    { c with pump := .claimed offer (.snapshot false) }.send .reset offer.epoch 0 0 []
  | .snapshot false =>
    { c with pump := .shipped offer }.send .snapshot offer.epoch 0 offer.stateNum
      (encodeSnapshot offer.state)
  | .diff baseStateNum base =>
    if (offer.state.diffFrom base).isEmpty then { c with pump := .draining }
    else
      { c with pump := .shipped offer }.send .diff offer.epoch baseStateNum offer.stateNum
        (encodeDiff (offer.state.diffFrom base))

/-- What `drain` does with one inbox after the ack: the results, the roster
and the offer, a frame a step. -/
def sendInbox (c : WorkspaceChannel) (loose : RawUuid) (inbox : Inbox) (didSend : Bool) :
    WorkspaceChannel :=
  match inbox.results, inbox.roster, inbox.offer with
  | result :: results, _, _ =>
    { c with pump := .sending loose { inbox with results } true }.send .intentResult loose 0 0
      result.encode
  | [], some roster, _ =>
    { c with pump := .sending loose { inbox with roster := none } true }.send .presence loose 0 0
      roster
  | [], none, some offer => c.plan offer didSend
  | [], none, none => c.finish didSend

/-- The pump's next step. -/
def pumpStep (c : WorkspaceChannel) : WorkspaceChannel :=
  match c.pump with
  | .parked => if c.inner.hasWork then c.take else c
  | .draining => c.take
  | .taken inbox =>
    { c with
      pump := .resubscribed inbox
      inner := match inbox.subscribe with
        | some request => c.inner.applyResubscribe request
        | none => c.inner }
  | .resubscribed inbox =>
    { c with
      pump := .acked inbox
      inner := { c.inner with retention := c.inner.retention.applyPendingAck } }
  | .acked inbox =>
    { c with pump := .sending (looseEpoch c.inner.retention.ladder) inbox false }
  | .sending loose inbox didSend => c.sendInbox loose inbox didSend
  | .planned offer planned =>
    { c with pump := .claimed offer planned, inner := c.inner.claimPendingState }
  | .claimed offer planned => c.sendDocument offer planned
  | .shipped offer =>
    { c with
      pump := .draining
      inner := { c.inner with
        retention := c.inner.retention.commit offer.stateNum offer.state } }

/-! ### The client -/

/-- The next frame arrives. -/
def receive (c : WorkspaceChannel) : WorkspaceChannel :=
  match c.link with
  | [] => c
  | f :: link =>
    { c with
      link
      client := (c.client.handle f).1
      uplink := c.uplink ++ (c.client.handle f).2 }

/-- The next intent is written. -/
def sendIntent (c : WorkspaceChannel) : WorkspaceChannel :=
  match c.client.intentQueue with
  | [] => c
  | intent :: intentQueue =>
    { c with client := { c.client with intentQueue }, uplink := c.uplink ++ [.intent intent] }

/-- The channel after one step. -/
def step (c : WorkspaceChannel) : ChannelOp → WorkspaceChannel
  | .offer next => c.bump next
  | .deliverRoster roster => { c with inner := c.inner.deliverRoster roster }
  | .deliverResult result => { c with inner := c.inner.deliverResult result }
  | .hear status => c.hear status
  | .reply => c.reply
  | .pump => c.pumpStep
  | .receive => c.receive
  | .sendSubscribe => { c with uplink := c.uplink ++ [.subscribe c.client.subscribeRequest] }
  | .stage proposed intent issuedAt => { c with client := c.client.stage proposed intent issuedAt }
  | .sendIntent => c.sendIntent
  | .expirePending now timeout => { c with client := { c.client with
      mirror := (c.client.mirror.expirePending now timeout).2 } }

end WorkspaceChannel

end SlopDesk.HostServer
