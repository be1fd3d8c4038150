/-
SlopDesk.HostPane.Subscription — the stream of a pane and the subscriptions to it.
-/
import SlopDesk.Base.Blocks
import SlopDesk.Base.Outcome
import SlopDesk.Superd.Ring

/-! # The receiving end of a pane's output
(`slopdesk-hostpane/src/stream.rs`).

`StreamState` sits behind one lock, and its sink is called with the lock
released: `bytes` answers what is still to be called, a `Handover`, and the
latch of `finish` is a step of its own. Sniffed events and block changes
are what superd's readers found; nothing here looks inside them. A line
for the log is a call like the others, with the source's text.
-/

namespace SlopDesk.HostPane

variable {σ β : Type}

structure StreamPosition where
  start : Nat
  head : Nat
  lossy : Bool
  ended : Bool
  deriving DecidableEq, Repr

/-- A call on a `PaneChunkSink`. -/
inductive SinkCall (σ β : Type) where
  | chunk (payload : List UInt8) (endsAt : Nat) (sniffed : List σ) (blocks : List β)
  | ended
  | log (line : String)
  deriving DecidableEq, Repr

structure Guarded (σ β : Type) where
  started : Bool := false
  stopped : Bool := false
  expectedOffset : Option Nat := none
  endsAt : Option Nat := none
  reportedEof : Bool := false
  paused : Bool := false
  lossyResume : Bool := false
  pendingSniffed : List σ := []
  pendingBlocks : List β := []
  deriving DecidableEq, Repr

/-- What `bytes` does once its lock is released: the calls it makes, and
whether the end follows them. -/
structure Handover (σ β : Type) where
  calls : List (SinkCall σ β)
  last : Bool
  deriving DecidableEq, Repr

namespace Guarded

/-- The log line of a gap. -/
def gapLine (name : String) (expected offset : Nat) : String :=
  "pane " ++ name ++ ": output gap — expected offset " ++ toString expected ++ ", got "
    ++ toString offset ++ " (" ++ toString (offset - expected) ++ " bytes lost)"

/-- The line a chunk past the expected offset logs. -/
def gap (name : String) (g : Guarded σ β) (offset : Nat) : List (SinkCall σ β) :=
  match g.expectedOffset with
  | none => []
  | some expected => if offset > expected then [.log (gapLine name expected offset)] else []

/-- How much of a chunk the stream already has. -/
def overlap (g : Guarded σ β) (offset : Nat) : Nat :=
  match g.expectedOffset with
  | none => 0
  | some expected => expected - offset

/-- `bytes`, up to the release of its lock. -/
def bytes (name : String) (g : Guarded σ β) (offset : Nat) (payload : List UInt8) :
    Guarded σ β × Option (Handover σ β) :=
  let next := offset + payload.length
  let lastOfABacklog := g.endsAt.any fun stop => next ≥ stop
  let fresh := payload.drop (g.overlap offset)
  let moved := !g.stopped && g.expectedOffset.all fun expected => next > expected
  let after := { g with
    expectedOffset := if moved then some next else g.expectedOffset
    pendingSniffed := []
    pendingBlocks := [] }
  if g.stopped then (after, none)
  else
    let duplicate := g.overlap offset > 0 && fresh.isEmpty
    let news := !fresh.isEmpty || !g.pendingSniffed.isEmpty || !g.pendingBlocks.isEmpty
    let chunk := if !duplicate && news then [.chunk fresh next g.pendingSniffed g.pendingBlocks] else []
    (after, some { calls := g.gap name offset ++ chunk, last := lastOfABacklog })

def sniffed (g : Guarded σ β) (events : List σ) : Guarded σ β :=
  { g with pendingSniffed := g.pendingSniffed ++ events }

def blocks (g : Guarded σ β) (events : List β) : Guarded σ β :=
  { g with pendingBlocks := g.pendingBlocks ++ events }

/-- The latch of `finish`: whether this call is the one to declare the end. -/
def finish (g : Guarded σ β) : Bool × Guarded σ β := (!g.reportedEof, { g with reportedEof := true })

/-- `start`: where to subscribe from, unless there is nothing to do. -/
def start (g : Guarded σ β) (initialOffset : Nat) : Option (Nat × Guarded σ β) :=
  if g.started || g.stopped then none
  else some (g.expectedOffset.getD initialOffset, { g with started := true })

/-- `accept`, up to the release of its lock: whether the end has been
reached already. -/
def accept (g : Guarded σ β) (position : StreamPosition) : Bool × Guarded σ β :=
  let reached := g.expectedOffset.getD position.start
  (position.ended && reached ≥ position.head,
    { g with
      expectedOffset := some reached
      endsAt := if position.ended then some position.head else none
      lossyResume := g.lossyResume || position.lossy })

/-- The log line of a lossy resume. -/
def lossyLine (name : String) (position : StreamPosition) : String :=
  "pane " ++ name ++ ": superd had already evicted the start of the stream — resumed at "
    ++ toString position.start ++ ", " ++ toString (position.head - position.start)
    ++ " bytes retained"

/-- `stop`: whether this call is the one that leaves, and whether it leaves
a subscription. -/
def stop (g : Guarded σ β) : Bool × Bool × Guarded σ β :=
  (!g.stopped, g.started, { g with stopped := true })

end Guarded

/-- The bytes a run of calls hands on. -/
def payloads (calls : List (SinkCall σ β)) : List UInt8 :=
  calls.flatMap fun call =>
    match call with
    | .chunk payload _ _ _ => payload
    | _ => []

end SlopDesk.HostPane

/-! # One pane's output, from superd's pump to
the sinks of the streams a host opens on it over one connection.

On superd's side (`server.rs`, `pump.rs`, `registry.rs`): the pump appends
to the ring under the ring's lock and fans out under the connection's wire
lock, and a `subscribe` holds the wire lock over three steps, the ring's
snapshot, the ended flag, and the reply with its backlog. On the host's
(`client.rs`, `stream.rs`): requests and frames cross in order, the sink of
a pane is installed before the request leaves, and one reader thread calls
it while the thread inside `start` accepts the reply. Each is a step here;
a step that is not enabled changes nothing. `position`, `origin`, `mark`
and `produced` are history: nothing reads them back. Left out: a request
superd refuses, a write that fails, and the pause.
-/

namespace SlopDesk.HostPane

open SlopDesk.Base
open SlopDesk.Superd

variable {σ β : Type}

/-! ## What crosses the connection -/

/-- A chunk in the ring that was not fanned out yet, and what superd's
readers found in it. -/
structure Waiting (σ β : Type) where
  offset : Nat
  bytes : List UInt8
  sniffed : List σ
  blocks : List β
  deriving DecidableEq, Repr

/-- A frame from superd. A reply names the stream whose request it answers;
on the wire that is the request's id. -/
inductive Frame (σ β : Type) where
  | reply (stream : Nat) (position : StreamPosition)
  | sniff (events : List σ)
  | blocks (events : List β)
  | output (offset : Nat) (payload : List UInt8)
  | exited
  deriving DecidableEq, Repr

/-- A request of the host's. -/
inductive Request where
  | subscribe (stream fromOffset : Nat)
  | unsubscribe
  deriving DecidableEq, Repr

/-- The events found in a chunk, ahead of it: a frame for each reader that
found any. -/
def eventFrames (sniffed : List σ) (blocks : List β) : List (Frame σ β) :=
  (if sniffed.isEmpty then [] else [.sniff sniffed])
    ++ (if blocks.isEmpty then [] else [.blocks blocks])

/-- The writes of `send_output`. -/
def outputFrames (w : Waiting σ β) : List (Frame σ β) :=
  eventFrames w.sniffed w.blocks ++ [.output w.offset w.bytes]

/-- The loop of `write_backlog`. -/
def backlogFrames (offset : Nat) : List (List UInt8) → List (Frame σ β)
  | [] => []
  | chunk :: rest => .output offset chunk :: backlogFrames (offset + chunk.length) rest

/-- `write_backlog`, with what the fresh sniffer found. -/
def writeBacklog (limit : Nat) (resumed : Resume) (sniffed : List σ) : List (Frame σ β) :=
  eventFrames sniffed [] ++ backlogFrames resumed.start (Blocks.chunks (max limit 1) resumed.bytes)

/-! ## The parties -/

/-- The wire lock: free, or held by a `subscribe` between its steps. -/
inductive Wire where
  | free
  | resumed (stream requested : Nat) (resume : Resume)
  | answered (stream requested : Nat) (resume : Resume) (ended : Bool)
  deriving DecidableEq, Repr

/-- The thread inside `start`. -/
inductive Acceptor where
  | waiting
  | replied (position : StreamPosition)
  | finishing
  | ending
  | done
  deriving DecidableEq, Repr

/-- The client's reader thread. -/
inductive Reader (σ β : Type) where
  | idle
  | handing (stream : Nat) (handover : Handover σ β)
  | finishing (stream : Nat)
  | ending (stream : Nat)
  deriving DecidableEq, Repr

/-- A `PaneOutputStream` and the calls its sink has had. -/
structure Stream (σ β : Type) where
  guarded : Guarded σ β := {}
  acceptor : Acceptor := .waiting
  calls : List (SinkCall σ β) := []
  /-- What its subscribe was answered with. -/
  position : Option StreamPosition := none
  /-- Where the bytes it accounts for begin. -/
  origin : Option Nat := none

/-- A pane, its connection, and the streams opened on it. -/
structure Seam (σ β : Type) where
  ring : OutputRing
  produced : List UInt8
  waiting : Option (Waiting σ β)
  pumpEnded : Bool
  notified : Bool
  wire : Wire
  registered : Bool
  /-- How far the frames sent under the registration reach. -/
  mark : Nat
  requests : List Request
  link : List (Frame σ β)
  sink : Option Nat
  started : Nat
  streams : Nat → Stream σ β
  reader : Reader σ β

namespace Seam

/-- A pane that has produced nothing and that nobody follows. -/
def new (capacity : Nat) : Seam σ β where
  ring := .new capacity
  produced := []
  waiting := none
  pumpEnded := false
  notified := false
  wire := .free
  registered := false
  mark := 0
  requests := []
  link := []
  sink := none
  started := 0
  streams := fun _ => {}
  reader := .idle

/-- A change to one stream. -/
def modify (s : Seam σ β) (k : Nat) (f : Stream σ β → Stream σ β) : Seam σ β :=
  { s with streams := fun i => if i = k then f (s.streams i) else s.streams i }

/-! ## superd -/

/-- `publish`, up to the ring's lock. -/
def append (s : Seam σ β) (chunk : List UInt8) (sniffed : List σ) (blocks : List β) : Seam σ β :=
  if s.waiting.isSome || s.pumpEnded then s
  else
    { s with
      ring := s.ring.append chunk
      produced := s.produced ++ chunk
      waiting := some ⟨s.ring.head, chunk, sniffed, blocks⟩ }

/-- The fan-out of that chunk, once the wire is free. -/
def fanOut (s : Seam σ β) : Seam σ β :=
  match s.waiting, s.wire with
  | some w, .free =>
    if s.registered then
      { s with
        waiting := none
        link := s.link ++ outputFrames w
        mark := max s.mark (w.offset + w.bytes.length) }
    else { s with waiting := none }
  | _, _ => s

/-- The pump reads the end of the master. -/
def finishPump (s : Seam σ β) : Seam σ β :=
  if s.waiting.isSome then s else { s with pumpEnded := true }

/-- `broadcast_exit`, after the pump was drained. -/
def notify (s : Seam σ β) : Seam σ β :=
  match s.wire with
  | .free =>
    if s.pumpEnded && !s.notified then { s with notified := true, link := s.link ++ [.exited] } else s
  | _ => s

/-- The next request: an `unsubscribe`, or a `subscribe` up to its snapshot
of the ring. -/
def serve (s : Seam σ β) : Seam σ β :=
  match s.wire, s.requests with
  | .free, .unsubscribe :: rest => { s with requests := rest, registered := false }
  | .free, .subscribe k requested :: rest =>
    { s with requests := rest, wire := .resumed k requested (s.ring.readFrom requested) }
  | _, _ => s

/-- `resume` reads the ended flag after the ring. -/
def readEnded (s : Seam σ β) : Seam σ β :=
  match s.wire with
  | .resumed k requested r => { s with wire := .answered k requested r s.pumpEnded }
  | _ => s

/-- The reply, the registration and the backlog. -/
def ship (limit : Nat) (s : Seam σ β) (sniffed : List σ) : Seam σ β :=
  match s.wire with
  | .answered k requested r ended =>
    { s with
      wire := .free
      registered := true
      mark := r.head
      link := s.link ++ (.reply k ⟨r.start, r.head, r.isLossy requested, ended⟩
        :: writeBacklog limit r sniffed) }
  | _ => s

/-! ## The host -/

/-- `start`, on a stream made for it: its sink is installed and its request
queued. -/
def start (s : Seam σ β) (fromOffset : Nat) : Seam σ β :=
  match ({} : Guarded σ β).start fromOffset with
  | none => s
  | some (offset, guarded) =>
    { s.modify s.started (fun _ => { guarded }) with
      started := s.started + 1
      sink := some s.started
      requests := s.requests ++ [.subscribe s.started offset] }

/-- `stop`: the sink of the pane goes, whichever stream's it is. -/
def stop (s : Seam σ β) (k : Nat) : Seam σ β :=
  let (leaves, started, guarded) := (s.streams k).guarded.stop
  let stopped := s.modify k fun t => { t with guarded }
  if leaves && started then
    { stopped with sink := none, requests := s.requests ++ [.unsubscribe] }
  else stopped

/-- `deliver_output` into the stream `k`. -/
def deliver (name : String) (s : Seam σ β) (k offset : Nat) (payload : List UInt8) : Seam σ β :=
  let (guarded, handover) := (s.streams k).guarded.bytes name offset payload
  match handover with
  | none => s.modify k fun t => { t with guarded }
  | some handover =>
    { s.modify k (fun t => { t with guarded, origin := t.origin.or (some offset) }) with
      reader := .handing k handover }

/-- The reader takes the next frame. -/
def read (name : String) (s : Seam σ β) : Seam σ β :=
  match s.reader, s.link with
  | .idle, frame :: rest =>
    let s := { s with link := rest }
    match frame, s.sink with
    | .reply k position, _ =>
      s.modify k fun t => { t with acceptor := .replied position, position := some position }
    | .sniff events, some k => s.modify k fun t => { t with guarded := t.guarded.sniffed events }
    | .blocks events, some k => s.modify k fun t => { t with guarded := t.guarded.blocks events }
    | .output offset payload, some k => s.deliver name k offset payload
    | .exited, some k => { s with sink := none, reader := .finishing k }
    | _, none => s
  | _, _ => s

/-- The reader makes the calls `bytes` left it with. -/
def hand (s : Seam σ β) : Seam σ β :=
  match s.reader with
  | .handing k handover =>
    { s.modify k (fun t => { t with calls := t.calls ++ handover.calls }) with
      reader := if handover.last then .finishing k else .idle }
  | _ => s

/-- The reader's `finish`, up to the latch. -/
def readerFinish (s : Seam σ β) : Seam σ β :=
  match s.reader with
  | .finishing k =>
    let (tell, guarded) := (s.streams k).guarded.finish
    { s.modify k (fun t => { t with guarded }) with reader := if tell then .ending k else .idle }
  | _ => s

/-- The reader declares the end. -/
def readerEnd (s : Seam σ β) : Seam σ β :=
  match s.reader with
  | .ending k => { s.modify k (fun t => { t with calls := t.calls ++ [.ended] }) with reader := .idle }
  | _ => s

/-- `accept`, with the line it logs; whether it goes on to `finish`. -/
def accept (name : String) (s : Seam σ β) (k : Nat) : Seam σ β :=
  match (s.streams k).acceptor with
  | .replied position =>
    let (finished, guarded) := (s.streams k).guarded.accept position
    s.modify k fun t =>
      { t with
        guarded
        origin := t.origin.or (some position.start)
        calls := t.calls ++ (if position.lossy then [.log (Guarded.lossyLine name position)] else [])
        acceptor := if finished then .finishing else .done }
  | _ => s

/-- The latch of `accept`'s `finish`. -/
def acceptFinish (s : Seam σ β) (k : Nat) : Seam σ β :=
  match (s.streams k).acceptor with
  | .finishing =>
    let (tell, guarded) := (s.streams k).guarded.finish
    s.modify k fun t => { t with guarded, acceptor := if tell then .ending else .done }
  | _ => s

/-- `accept` declares the end. -/
def acceptEnd (s : Seam σ β) (k : Nat) : Seam σ β :=
  match (s.streams k).acceptor with
  | .ending => s.modify k fun t => { t with calls := t.calls ++ [.ended], acceptor := .done }
  | _ => s

end Seam

/-- One step of one of the parties. -/
inductive SeamOp (σ β : Type) where
  | append (chunk : List UInt8) (sniffed : List σ) (blocks : List β)
  | fanOut
  | finishPump
  | notify
  | serve
  | readEnded
  | ship (sniffed : List σ)
  | start (fromOffset : Nat)
  | stop (stream : Nat)
  | read
  | hand
  | readerFinish
  | readerEnd
  | accept (stream : Nat)
  | acceptFinish (stream : Nat)
  | acceptEnd (stream : Nat)
  deriving DecidableEq, Repr

/-- A step; `limit` is the payload room of a frame, `name` the pane's. -/
def Seam.step (limit : Nat) (name : String) (s : Seam σ β) : SeamOp σ β → Seam σ β
  | .append chunk sniffed blocks => s.append chunk sniffed blocks
  | .fanOut => s.fanOut
  | .finishPump => s.finishPump
  | .notify => s.notify
  | .serve => s.serve
  | .readEnded => s.readEnded
  | .ship sniffed => s.ship limit sniffed
  | .start fromOffset => s.start fromOffset
  | .stop k => s.stop k
  | .read => s.read name
  | .hand => s.hand
  | .readerFinish => s.readerFinish
  | .readerEnd => s.readerEnd
  | .accept k => s.accept name k
  | .acceptFinish k => s.acceptFinish k
  | .acceptEnd k => s.acceptEnd k

end SlopDesk.HostPane
