/-
SlopDesk.Superd.Transcript — the lives of one pane id and the transcript
they leave (`spawn`, `release` and the reaper of
`slopdesk-superd/src/registry.rs`, over the store of `Journal`).

The threads that act on the id are cut where they take a lock: a spawn
starts its pump, opens the journal and inserts the pane; a release closes
the journal, takes the pane and then joins its pump; a reaper takes the
pane its child belongs to, reads its pump to the end and closes the
journal; a pump publishes. What the id's spawns and releases do to other
ids, descriptors, signals, the graveyard and the notices are left out.

Beside the store the system keeps whose bytes are where: `opener` is the
life whose spawn opened the entry, `buffered` and `written` are the
entry's pending bytes and what was written to each file, every byte under
the life whose pump published it.
-/
import SlopDesk.Superd.Journal
import SlopDesk.Superd.Ring

namespace SlopDesk.Superd

open SlopDesk.Base

/-! ## §1 The registry -/

structure JournalRequest where
  directory : String
  capBytes : Nat
  deriving DecidableEq, Repr

/-- What of a `SpawnRequest` the transcript rests on. -/
structure SpawnRequest where
  sessionId : String
  journal : Option JournalRequest
  deriving DecidableEq, Repr

/-- The journal a spawn asks for, if it asks for one. -/
def SpawnRequest.asked (r : SpawnRequest) : Option String :=
  match r.journal with
  | none => none
  | some wanted =>
    if wanted.capBytes = 0 ∨ r.sessionId = "" then none
    else some (journalPath wanted.directory r.sessionId)

/-- One life of the id: its pump's ring and whether the pump still runs,
whether the pane was inserted and whether it was released since.
`published` is all its pump published and `due` what of it came before the
release. -/
structure Life where
  request : SpawnRequest
  ring : OutputRing
  running : Bool
  inserted : Bool
  released : Bool
  published : List UInt8
  due : List UInt8

/-- A chunk is published: into the ring, and to whoever counts on it. -/
def Life.publish (l : Life) (chunk : List UInt8) : Life :=
  { l with
    ring := l.ring.append chunk
    published := l.published ++ chunk
    due := if l.released then l.due else l.due ++ chunk }

/-- Where a spawn stands: its child is forked, its pump runs, its journal
is open. -/
inductive Stage where
  | forked
  | pumping (life : Nat)
  | opened (life : Nat)
  deriving DecidableEq, Repr

/-- The life a spawn made. -/
def Stage.life : Stage → Option Nat
  | .forked => none
  | .pumping life | .opened life => some life

/-- A spawn, which holds the id until it returns. -/
structure Spawning where
  request : SpawnRequest
  pid : Nat
  stage : Stage
  deriving DecidableEq, Repr

/-- Where a reaper stands. -/
inductive ReaperPhase where
  | waiting
  | reaped
  | draining (life : Nat)
  | done
  deriving DecidableEq, Repr

/-- The reaper of one child. -/
structure Reaper where
  pid : Nat
  phase : ReaperPhase
  deriving DecidableEq, Repr

/-- The life a reaper took from the pane table and has not closed. -/
def Reaper.drains (r : Reaper) : Option Nat :=
  match r.phase with
  | .draining life => some life
  | _ => none

/-- Where a release stands. -/
inductive ReleasePhase where
  | closed
  | dropping (life : Nat)
  | done
  deriving DecidableEq, Repr

/-- Everything that touches one pane id. `pane` is the entry of the pane
table, a life and the pid it is recorded under. -/
structure Registry where
  ringCapacity : Nat
  store : JournalStore
  pane : Option (Nat × Nat)
  spawning : Option Spawning
  lives : List Life
  reapers : List Reaper
  releases : List ReleasePhase
  opener : Option Nat
  buffered : List (Nat × UInt8)
  written : String → List (Nat × UInt8)

/-- What can happen next. -/
inductive Op where
  /-- The id is reserved and the child forked. -/
  | spawn (request : SpawnRequest) (pid : Nat)
  /-- What fails between the fork and the pump. -/
  | abandon
  | startPump
  | openJournal
  | insert
  | publish (life : Nat) (chunk : List UInt8)
  /-- A pump reads the end of its master. -/
  | pumpEnded (life : Nat)
  /-- The first step of a release. -/
  | release
  | releaseTake (index : Nat)
  | releaseJoin (index : Nat)
  /-- A reaper's child exits. -/
  | reap (index : Nat)
  | reaperTake (index : Nat)
  | reaperClose (index : Nat)
  /-- The writer thread, or a reader of the store. -/
  | flush
  deriving DecidableEq

namespace Registry

/-- A superd that starts on the files it finds. -/
def new (ringCapacity : Nat) (files : String → List UInt8) : Registry where
  ringCapacity := ringCapacity
  store := ⟨none, files⟩
  pane := none
  spawning := none
  lives := []
  reapers := []
  releases := []
  opener := none
  buffered := []
  written := fun _ => []

/-- The entry's pending bytes go to its file. -/
def flush (s : Registry) : Registry :=
  match s.store.writer with
  | none => s
  | some w =>
    { s with
      store := s.store.sync
      buffered := []
      written := Function.update s.written w.path (s.written w.path ++ s.buffered) }

/-- `journals.close`. -/
def closeJournal (s : Registry) : Registry :=
  let flushed := s.flush
  { flushed with store := s.store.close, opener := none }

def modifyLife (s : Registry) (life : Nat) (f : Life → Life) : Registry :=
  { s with lives := s.lives.modify life f }

/-- Whether a child of that pid was not waited for yet. -/
def held (s : Registry) (pid : Nat) : Bool :=
  s.reapers.any (fun r => r.pid = pid && r.phase = .waiting) ||
    s.spawning.any (fun spawning => spawning.pid = pid)

def spawn (s : Registry) (request : SpawnRequest) (pid : Nat) : Registry :=
  if s.pane.isSome || s.spawning.isSome || s.held pid then s
  else { s with spawning := some ⟨request, pid, .forked⟩ }

def abandon (s : Registry) : Registry :=
  match s.spawning with
  | some ⟨_, pid, .forked⟩ =>
    { s with spawning := none, reapers := s.reapers ++ [⟨pid, .waiting⟩] }
  | _ => s

def startPump (s : Registry) : Registry :=
  match s.spawning with
  | some ⟨request, pid, .forked⟩ =>
    { s with
      spawning := some ⟨request, pid, .pumping s.lives.length⟩
      lives := s.lives ++ [⟨request, .new s.ringCapacity, true, false, false, [], []⟩] }
  | _ => s

/-- The spawn's `journals.open`, for a request that wants a journal. -/
def openJournal (s : Registry) : Registry :=
  match s.spawning with
  | some ⟨request, pid, .pumping life⟩ =>
    let s := { s with spawning := some ⟨request, pid, .opened life⟩ }
    match request.journal with
    | none => s
    | some wanted =>
      let store := s.store.openEntry wanted.directory request.sessionId wanted.capBytes
      if request.asked.isSome then { s with store, opener := some life, buffered := [] }
      else { s with store }
  | _ => s

/-- The insert, and the reaper that starts behind it. -/
def insert (s : Registry) : Registry :=
  match s.spawning with
  | some ⟨_, pid, .opened life⟩ =>
    { s.modifyLife life fun l => { l with inserted := true } with
      pane := some (life, pid)
      spawning := none
      reapers := s.reapers ++ [⟨pid, .waiting⟩] }
  | _ => s

/-- `publish`: the ring, and then the sink, whose first act is the
journal's `append`. -/
def publish (s : Registry) (life : Nat) (chunk : List UInt8) : Registry :=
  match s.lives[life]? with
  | none => s
  | some l =>
    if l.running then
      let offset := l.ring.head
      { s.modifyLife life (·.publish chunk) with
        store := s.store.append chunk (offset + chunk.length)
        buffered :=
          if s.store.writer.isSome then s.buffered ++ chunk.map ((life, ·)) else s.buffered }
    else s

def pumpEnded (s : Registry) (life : Nat) : Registry :=
  s.modifyLife life fun l => { l with running := false }

/-- `release`, as far as the journal. Whatever was inserted under the id
is released. -/
def release (s : Registry) : Registry :=
  { s.closeJournal with
    lives := s.lives.map fun l => { l with released := l.released || l.inserted }
    releases := s.releases ++ [.closed] }

/-- A release takes the pane. -/
def releaseTake (s : Registry) (index : Nat) : Registry :=
  match s.releases[index]? with
  | some .closed =>
    match s.pane with
    | none => { s with releases := s.releases.set index .done }
    | some (life, _) =>
      { s.modifyLife life fun l => { l with released := true } with
        pane := none
        releases := s.releases.set index (.dropping life) }
  | _ => s

/-- The pane is dropped: its pump is stopped and joined. -/
def releaseJoin (s : Registry) (index : Nat) : Registry :=
  match s.releases[index]? with
  | some (.dropping life) =>
    { s.modifyLife life fun l => { l with running := false } with
      releases := s.releases.set index .done }
  | _ => s

def reap (s : Registry) (index : Nat) : Registry :=
  match s.reapers[index]? with
  | some ⟨pid, .waiting⟩ => { s with reapers := s.reapers.set index ⟨pid, .reaped⟩ }
  | _ => s

/-- Remove-if-present-and-still-ours, by the pid. -/
def reaperTake (s : Registry) (index : Nat) : Registry :=
  match s.reapers[index]? with
  | some ⟨pid, .reaped⟩ =>
    match s.pane with
    | none => { s with reapers := s.reapers.set index ⟨pid, .done⟩ }
    | some (life, recorded) =>
      if recorded = pid then
        { s with pane := none, reapers := s.reapers.set index ⟨pid, .draining life⟩ }
      else { s with reapers := s.reapers.set index ⟨pid, .done⟩ }
  | _ => s

/-- Behind `drain_to_end`, which returns once the pump has. -/
def reaperClose (s : Registry) (index : Nat) : Registry :=
  match s.reapers[index]? with
  | some ⟨pid, .draining life⟩ =>
    if s.lives[life]?.any (·.running) then s
    else { s.closeJournal with reapers := s.reapers.set index ⟨pid, .done⟩ }
  | _ => s

/-- One step of some thread. -/
def step (s : Registry) : Op → Registry
  | .spawn request pid => s.spawn request pid
  | .abandon => s.abandon
  | .startPump => s.startPump
  | .openJournal => s.openJournal
  | .insert => s.insert
  | .publish life chunk => s.publish life chunk
  | .pumpEnded life => s.pumpEnded life
  | .release => s.release
  | .releaseTake index => s.releaseTake index
  | .releaseJoin index => s.releaseJoin index
  | .reap index => s.reap index
  | .reaperTake index => s.reaperTake index
  | .reaperClose index => s.reaperClose index
  | .flush => s.flush

/-! ## §2 What is claimed -/

/-- The bytes of one life among tagged bytes. -/
def bytesOf (life : Nat) (bytes : List (Nat × UInt8)) : List UInt8 :=
  (bytes.filter (·.1 = life)).map (·.2)

/-- What was appended to a journal and not lost since. -/
def journaled (s : Registry) (path : String) : List (Nat × UInt8) :=
  s.written path ++ if s.store.writer.any (·.path = path) then s.buffered else []

/-- Every byte a life's pump published before the pane was released is in
the journal its spawn asked for, in order and without a gap; no byte of it
is in another, nor pending in an entry another life opened; what `head` reports of a life is no more than it
published, and all of it is in the file; and a file is what was there and
what was written to it, up to compaction. -/
structure Complete (files : String → List UInt8) (s : Registry) : Prop where
  kept : ∀ (life : Nat) (l : Life) (path : String), s.lives[life]? = some l → l.request.asked = some path →
    l.due <+: bytesOf life (s.journaled path) ∧ bytesOf life (s.journaled path) <+: l.published
  unreleased : ∀ (life : Nat) (l : Life), s.lives[life]? = some l → l.released = false → l.due = l.published
  apart : ∀ (life : Nat) (l : Life) (path : String), s.lives[life]? = some l → l.request.asked ≠ some path →
    bytesOf life (s.journaled path) = []
  own : ∀ b ∈ s.buffered, s.opener = some b.1
  head : ∀ n, s.store.head.2 = some n → ∃ (life : Nat) (l : Life) (path : String),
    s.opener = some life ∧ s.lives[life]? = some l ∧ l.request.asked = some path ∧
      n ≤ l.published.length ∧ bytesOf life (s.flush.written path) = l.published.take n
  files : ∀ path, Compaction (files path ++ (s.written path).map (·.2)) (s.store.files path)

/-- The condition on a step. A life that asked for a journal and was not
released publishes behind its journal's `open`, any other life publishes
while no other life's entry stands under the id; a journal is opened while
no reaper has a pane of the id to close, and replaces no entry with bytes
pending; a reaper closes no other life's entry; and no release begins
while a spawn has opened its journal and not inserted its pane. -/
def Orderly (s : Registry) : Op → Prop
  | .publish life chunk =>
    chunk = [] ∨ ∀ l ∈ s.lives[life]?,
      if l.request.asked.isSome ∧ l.released = false then
        ∀ spawning ∈ s.spawning, spawning.stage ≠ .pumping life
      else s.opener = none ∨ s.opener = some life
  | .openJournal =>
    ∀ spawning ∈ s.spawning, spawning.request.asked ≠ none →
      (∀ r ∈ s.reapers, r.drains = none) ∧ ∀ w ∈ s.store.writer, w.pending = []
  | .reaperClose index =>
    ∀ r ∈ s.reapers[index]?, ∀ life ∈ r.drains, s.opener = none ∨ s.opener = some life
  | .release =>
    ∀ spawning ∈ s.spawning, ∀ life ∈ spawning.stage.life, spawning.stage ≠ .opened life
  | _ => True

instance (s : Registry) : (op : Op) → Decidable (s.Orderly op)
  | .publish .. => inferInstanceAs (Decidable (_ ∨ _))
  | .openJournal => inferInstanceAs (Decidable (∀ spawning ∈ s.spawning, _))
  | .reaperClose index => inferInstanceAs (Decidable (∀ r ∈ s.reapers[index]?, _))
  | .release => inferInstanceAs (Decidable (∀ spawning ∈ s.spawning, _))
  | .spawn .. | .abandon | .startPump | .insert | .pumpEnded _ | .releaseTake _ | .releaseJoin _
  | .reap _ | .reaperTake _ | .flush => isTrue trivial

end Registry

end SlopDesk.Superd
