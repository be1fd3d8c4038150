/-
SlopDesk.Session.Fanout — the subscriber set of one pane
(`slopdesk-muxsession/src/fanout.rs`) and the pane around it that sizes
retention and eviction by it (`slopdesk-hostsession/src/shared.rs`).

The pane takes the roster lock and the ring lock in turn, never one
inside the other, so an ack and an eviction pass are each cut into the
pieces between two locks. What a piece hands to the next waits in the
pane (`floors`, `sampled`, `priced`), and any other step may run in
between.
-/
import SlopDesk.Base.BTree
import SlopDesk.Wire.Replay

namespace SlopDesk.Session

open SlopDesk.Base
open SlopDesk.Wire (ReplayBuffer)

abbrev SubscriberId := UInt64

structure Member where
  acked : Int := 0
  sent : Int := 0
  hasSender : Bool := false
  exitDelivered : Bool := false
  evicting : Bool := false
  deriving DecidableEq, Repr

structure Cursor where
  id : SubscriberId
  acked : Int
  deriving DecidableEq, Repr

structure Priced where
  id : SubscriberId
  retainedBytes : Nat
  deriving DecidableEq, Repr

structure Fanout where
  members : BTreeMap SubscriberId Member
  nextId : SubscriberId

namespace Fanout

def new : Fanout := ⟨∅, 1⟩

def reserveId (f : Fanout) : SubscriberId × Fanout := (f.nextId, { f with nextId := f.nextId + 1 })

/-- `join`: replaces any member already at the id. -/
def join (f : Fanout) (id : SubscriberId) (acked : Int) : Fanout :=
  { f with members := f.members.insert id { acked } }

/-- `leave`, with whether the set is now empty. -/
def leave (f : Fanout) (id : SubscriberId) : Bool × Fanout :=
  let f := { f with members := f.members.erase id }
  (f.members.isEmpty, f)

def ids (f : Fanout) : List SubscriberId := f.members.keys

def retentionFloor (f : Fanout) : Option Int := (f.members.toList.map fun e => e.2.acked).min?

/-- `acknowledge`, with the floor over the members that remain. -/
def acknowledge (f : Fanout) (id : SubscriberId) (seq : Int) : Option Int × Fanout :=
  let f := { f with members := f.members.modify id fun m => { m with acked := seq } }
  (f.retentionFloor, f)

/-- `start_sender`, with whether this call is what started it. -/
def startSender (f : Fanout) (id : SubscriberId) (head : Int) : Bool × Fanout :=
  match f.members[id]? with
  | none => (false, f)
  | some m =>
    if m.hasSender then (false, f)
    else (true, { f with members := f.members.insert id { m with hasSender := true, sent := head } })

def clearSender (f : Fanout) (id : SubscriberId) : Fanout :=
  { f with members := f.members.modify id fun m => { m with hasSender := false } }

def noteSent (f : Fanout) (id : SubscriberId) (seq : Int) : Fanout :=
  { f with members := f.members.modify id fun m => if m.sent < seq then { m with sent := seq } else m }

/-- `frontier`: only members delivered from an outbox count. -/
def frontier (f : Fanout) : Option Int :=
  ((f.members.toList.filter fun e => e.2.hasSender).map fun e => e.2.sent).max?

def markExitDelivered (f : Fanout) (id : SubscriberId) : Fanout :=
  { f with members := f.members.modify id fun m => { m with exitDelivered := true } }

def exitPending (f : Fanout) (id : SubscriberId) : Bool :=
  match f.members[id]? with
  | none => false
  | some m => !m.exitDelivered

def laggingCursors (f : Fanout) (threshold : Nat) : List Cursor :=
  if threshold = 0 ∨ f.members.size < 2 then []
  else
    match (f.members.toList.map fun e => e.2.acked).max? with
    | none => []
    | some healthiest =>
      (f.members.toList.filter fun e => e.2.acked ≠ healthiest).map fun e => ⟨e.1, e.2.acked⟩

/-- One entry of `latch_evicting`. -/
def latchOne (claimed : List SubscriberId × Fanout) (entry : Priced) : List SubscriberId × Fanout :=
  match claimed.2.members[entry.id]? with
  | none => claimed
  | some m =>
    if m.evicting then claimed
    else (claimed.1 ++ [entry.id],
      { claimed.2 with members := claimed.2.members.insert entry.id { m with evicting := true } })

/-- `latch_evicting`, with the ids this call claimed. -/
def latchEvicting (f : Fanout) (priced : List Priced) (threshold : Nat) :
    List SubscriberId × Fanout :=
  if threshold = 0 then ([], f)
  else (priced.filter fun entry => threshold < entry.retainedBytes).foldl latchOne ([], f)

end Fanout

/-! ## The pane -/

/-- What of `Shared` the fan-out decides about. A floor taken from the
roster waits in `floors` until the ring is acked to it; an eviction pass
waits in `sampled` and then in `priced`. -/
structure Pane where
  fanout : Fanout
  replay : ReplayBuffer
  lagBytes : Nat
  floors : List Int
  sampled : List (List Cursor)
  priced : List (List Priced)

/-- One critical section of one thread. -/
inductive PaneStep where
  /-- `admit` -/
  | admitMember (id : SubscriberId) (acked : Int)
  /-- `admit_joiner`: the cursor starts at the ring's head -/
  | admitJoiner (id : SubscriberId)
  /-- `reserve_subscriber_id` -/
  | reserveId
  /-- `retire`, of the member that holds the id -/
  | retire (id : SubscriberId)
  /-- `acknowledge`, its roster half -/
  | acknowledge (id : SubscriberId) (seq : Int)
  /-- `release_retention_to_minimum`, its roster half -/
  | takeFloor
  /-- the ring half of either -/
  | release (n : Nat)
  /-- `sequence` -/
  | sequence (bytes : List UInt8)
  /-- `start_sender` -/
  | startSender (id : SubscriberId) (head : Int)
  /-- `clear_sender` -/
  | clearSender (id : SubscriberId)
  /-- `note_sent` -/
  | noteSent (id : SubscriberId) (seq : Int)
  /-- `mark_exit_delivered` -/
  | markExitDelivered (id : SubscriberId)
  /-- `evict_lagging`: which cursors are behind -/
  | sampleLagging
  /-- `evict_lagging`: the ring prices each -/
  | price (n : Nat)
  /-- `evict_lagging`: the losers are latched -/
  | latch (n : Nat)

namespace Pane

/-- A pane nobody holds yet. -/
def start (replay : ReplayBuffer) (lagBytes : Nat) : Pane := ⟨.new, replay, lagBytes, [], [], []⟩

/-- A floor on its way to the ring. -/
def handOn (p : Pane) (floor : Int) : Pane := { p with floors := p.floors ++ [floor] }

/-- The price of one cursor. -/
def priceOf (p : Pane) (cursor : Cursor) : Priced :=
  ⟨cursor.id, p.replay.retainedBytesAbove cursor.acked⟩

def step (p : Pane) : PaneStep → Pane
  | .admitMember id acked => { p with fanout := p.fanout.join id acked }
  | .admitJoiner id =>
    -- an emptied pane refuses the joiner
    if p.fanout.members.isEmpty then p
    else { p with fanout := p.fanout.join id p.replay.highestSeq }
  | .reserveId => { p with fanout := p.fanout.reserveId.2 }
  | .retire id => { p with fanout := (p.fanout.leave id).2 }
  | .acknowledge id seq =>
    { p with fanout := (p.fanout.acknowledge id seq).2 }.handOn
      ((p.fanout.acknowledge id seq).1.getD seq)
  | .takeFloor =>
    match p.fanout.retentionFloor with
    | some floor => p.handOn floor
    | none => p
  | .release n =>
    match p.floors[n]? with
    | some floor => { p with replay := p.replay.ack floor, floors := p.floors.eraseIdx n }
    | none => p
  | .sequence bytes => { p with replay := p.replay.append bytes }
  | .startSender id head => { p with fanout := (p.fanout.startSender id head).2 }
  | .clearSender id => { p with fanout := p.fanout.clearSender id }
  | .noteSent id seq => { p with fanout := p.fanout.noteSent id seq }
  | .markExitDelivered id => { p with fanout := p.fanout.markExitDelivered id }
  | .sampleLagging =>
    match p.fanout.laggingCursors p.lagBytes with
    | [] => p
    | behind => { p with sampled := p.sampled ++ [behind] }
  | .price n =>
    match p.sampled[n]? with
    | some behind =>
      { p with sampled := p.sampled.eraseIdx n, priced := p.priced ++ [behind.map p.priceOf] }
    | none => p
  | .latch n =>
    match p.priced[n]? with
    | some priced =>
      { p with fanout := (p.fanout.latchEvicting priced p.lagBytes).2, priced := p.priced.eraseIdx n }
    | none => p

end Pane

end SlopDesk.Session
