/-
SlopDesk.Superd.JournalSweep — sweeps of a journal directory beside the panes
that write there (`slopdesk-superd/src/journal.rs`).

A sweep takes the paths of the registered writers, then lists the directory,
dating what it finds and taking away what is too old, and takes away last
what is past the newest it keeps. Panes open, append, flush and close at any
point in between. A sweep can only miss a writer that was registered behind
its snapshot: `Spares` says that it will not take the path away any more, and
is kept by every step (`Guarded`). Under it, each pane's file is what its own
flushes made of it (`Kept`). The size sidecars and failures of the file
system are left out.
-/
import SlopDesk.Base.Disk
import SlopDesk.Base.HashMap
import SlopDesk.Superd.Journal
import Mathlib.Data.List.Sort

namespace SlopDesk.Superd

open SlopDesk.Base

/-! ## §1 The store -/

/-- An entry of the table: its writer, the inode its handle has open, and
what is expected under its path, which is what was found there, as its own
flushes change it. -/
structure Journaling where
  writer : Writer
  inode : Nat
  expected : List UInt8

/-- A sweep in flight. `now` is read when the directory is opened, `doomed`
is what it has decided to take away, `listed` says that the listing is over. -/
structure Sweeping where
  live : List String
  maxAge : Nat
  keepNewest : Nat
  now : Option Nat
  dated : List (String × Nat)
  doomed : List String
  listed : Bool

/-- The table, the files, the clock and the sweeps. -/
structure SweptStore where
  panes : HashMap String Journaling
  disk : Disk String UInt8
  clock : Nat
  sweeps : List Sweeping

/-- What a thread does next. A directory entry that is not a journal is not
visited. -/
inductive SweepOp where
  | openEntry (pane dir sessionId : String) (cap : Nat)
  | append (pane : String) (chunk : List UInt8) (streamEnd : Nat)
  | flush (pane : String)
  | close (pane : String)
  | tick
  | sweepStart (maxAge keepNewest : Nat)
  | readDir (k : Nat)
  | visit (k : Nat) (path : String)
  | rank (k : Nat)
  | unlink (k : Nat)

namespace Writer

/-- `rewrite_to_tail`, on the disk: the file is read and given back under its
path. -/
def rewriteOn (w : Writer) (d : Disk String UInt8) (now : Nat) : Writer × Disk String UInt8 :=
  match d.read w.path with
  | none => (w, d)
  | some current =>
    if current.length ≤ w.cap then (w, d)
    else ((w.rewriteToTail current).1, d.replace w.path (w.rewriteToTail current).2 now)

/-- `flush`, on the disk, where the handle has `inode` open. -/
def flushOn (w : Writer) (inode : Nat) (d : Disk String UInt8) (now : Nat) : Writer × Nat × Disk String UInt8 :=
  if w.pending = [] then (w, inode, d)
  else
    let ceiling := max (w.cap * compactMultiple) w.retryFloor
    let overCap := w.onDisk + w.pending.length > ceiling
    let (d, inode) := if w.handle then (d, inode) else d.openAppend w.path now
    let written := (w.writeThrough (d.inodes inode)).1
    let d := d.append inode w.pending now
    if overCap then
      let (written, d) := written.rewriteOn d now
      (written, inode, d)
    else (written, inode, d)

end Writer

namespace Sweeping

/-- A directory entry, last changed at `mtime`: too old, or dated. -/
def visit (sweep : Sweeping) (path : String) (mtime : Nat) : Sweeping :=
  match sweep.now with
  | none => sweep
  | some now =>
    if sweep.listed ∨ sweep.doomed ≠ [] ∨ path ∈ sweep.live then sweep
    else if mtime ≤ now ∧ sweep.maxAge < now - mtime then { sweep with doomed := [path] }
    else { sweep with dated := sweep.dated ++ [(path, mtime)] }

/-- The end of the listing: what is past the newest is to go. -/
def rank (sweep : Sweeping) : Sweeping :=
  if sweep.now = none ∨ sweep.listed ∨ sweep.doomed ≠ [] then sweep
  else
    { sweep with
      listed := true
      doomed :=
        if sweep.dated.length ≤ sweep.keepNewest then []
        else ((sweep.dated.insertionSort fun a b => b.2 ≤ a.2).drop sweep.keepNewest).map (·.1) }

end Sweeping

namespace SweptStore

def livePaths (s : SweptStore) : List String := s.panes.entries.map fun e => e.2.writer.path

/-- A sweep goes on. -/
def onSweep (s : SweptStore) (k : Nat) (f : Sweeping → Sweeping) : SweptStore :=
  { s with sweeps := s.sweeps.modify k f }

/-- `writer.flush()`, of an entry. -/
def flushed (s : SweptStore) (e : Journaling) : Journaling × Disk String UInt8 :=
  let (writer, inode, disk) := e.writer.flushOn e.inode s.disk s.clock
  (⟨writer, inode, (e.writer.flush e.expected).2⟩, disk)

/-- The path an operation takes away. -/
def removes (s : SweptStore) : SweepOp → Option String
  | .unlink k => s.sweeps[k]?.bind (·.doomed.head?)
  | _ => none

/-- One step of one thread. -/
def step (s : SweptStore) : SweepOp → SweptStore
  | .openEntry pane dir sessionId cap =>
    if cap = 0 ∨ sessionId = "" then s
    else
      let path := journalPath dir sessionId
      { s with panes := s.panes.insert pane ⟨⟨path, cap, false, 0, [], 0, 0, 0⟩, 0, s.disk.content path⟩ }
  | .append pane chunk streamEnd =>
    match s.panes.lookup pane with
    | none => s
    | some e =>
      if chunk = [] then s
      else
        let writer := { e.writer with pending := e.writer.pending ++ chunk, pendingEnd := streamEnd }
        { s with panes := s.panes.insert pane { e with writer := writer } }
  | .flush pane =>
    match s.panes.lookup pane with
    | none => s
    | some e => { s with panes := s.panes.insert pane (s.flushed e).1, disk := (s.flushed e).2 }
  | .close pane =>
    match s.panes.lookup pane with
    | none => s
    | some e => { s with panes := s.panes.erase pane, disk := (s.flushed e).2 }
  | .tick => { s with clock := s.clock + 1 }
  | .sweepStart maxAge keepNewest =>
    { s with sweeps := s.sweeps ++ [⟨s.livePaths, maxAge, keepNewest, none, [], [], false⟩] }
  | .readDir k => s.onSweep k fun sweep => { sweep with now := sweep.now.or (some s.clock) }
  | .visit k path => s.onSweep k fun sweep => sweep.visit path ((s.disk.stamp path).getD 0)
  | .rank k => s.onSweep k Sweeping.rank
  | .unlink k =>
    match s.removes (.unlink k) with
    | none => s
    | some path =>
      { s.onSweep k (fun sweep => { sweep with doomed := sweep.doomed.tail }) with disk := s.disk.unlink path }

/-- Before any pane, over any files. -/
def start (disk : Disk String UInt8) (clock : Nat) : SweptStore := ⟨∅, disk, clock, []⟩

/-- A registered writer names the path. -/
def Names (s : SweptStore) (path : String) : Prop := ∃ e ∈ s.panes.entries, e.2.writer.path = path

/-- Each pane's file is what its own flushes made of it, and its handle has
that file open. -/
def Kept (s : SweptStore) : Prop :=
  ∀ e ∈ s.panes.entries, s.disk.content e.2.writer.path = e.2.expected ∧
    (e.2.writer.handle → s.disk.names e.2.writer.path = some e.2.inode)

end SweptStore

/-! ## §2 A flush on the disk -/

namespace Writer

variable {d : Disk String UInt8} {inode : Nat} {w : Writer}

theorem path_writeThrough (w : Writer) (file : List UInt8) : (w.writeThrough file).1.path = w.path := by
  simp only [writeThrough, openIfNeeded]
  split <;> rfl

theorem path_rewriteOn (w : Writer) (d : Disk String UInt8) (now : Nat) : (w.rewriteOn d now).1.path = w.path := by
  unfold rewriteOn
  split
  · rfl
  · split
    · rfl
    case isFalse h => simp [rewriteToTail, h]

theorem path_flushOn (w : Writer) (inode : Nat) (d : Disk String UInt8) (now : Nat) :
    (w.flushOn inode d now).1.path = w.path := by
  simp only [flushOn]
  split
  · rfl
  split
  · rw [path_rewriteOn, path_writeThrough]
  · exact path_writeThrough ..

/-- What a step of a writer does to the disk is what `next` says of the file
under its path: that file is changed so, an open handle has it open, and no
other file is touched. -/
structure Does (d d' : Disk String UInt8) (path : String) (next : Writer × List UInt8) (w : Writer) (inode : Nat) :
    Prop where
  writer : w = next.1
  content : d'.content path = next.2
  handle : w.handle → d'.names path = some inode
  others : ∀ other ≠ path, d'.content other = d.content other ∧ d'.names other = d.names other

theorem rewriteOn_does (h : d.names w.path = some inode) (now : Nat) :
    Does d (w.rewriteOn d now).2 w.path (w.rewriteToTail (d.content w.path)) (w.rewriteOn d now).1 inode := by
  have hread : d.read w.path = some (d.content w.path) := by simp [Disk.content, Disk.read, h]
  rw [rewriteOn, hread]
  by_cases hshort : (d.content w.path).length ≤ w.cap
  · have hnext : w.rewriteToTail (d.content w.path) = (w, d.content w.path) := if_pos hshort
    simp only [if_pos hshort, hnext]
    exact ⟨rfl, rfl, fun _ => h, fun _ _ => ⟨rfl, rfl⟩⟩
  · simp only [if_neg hshort]
    refine ⟨rfl, ?_, ?_, fun other hne => ⟨?_, Disk.names_replace_of_ne d hne _ now⟩⟩
    · rw [Disk.content_replace, if_pos rfl]
    · -- the handle was dropped
      intro hhandle
      simp [rewriteToTail, hshort] at hhandle
    · rw [Disk.content_replace, if_neg hne]

/-- A writer whose handle has the file of its path open does on the disk what
`flush` says. -/
theorem flushOn_does (h : w.handle → d.names w.path = some inode) (now : Nat) :
    Does d (w.flushOn inode d now).2.2 w.path (w.flush (d.content w.path)) (w.flushOn inode d now).1
      (w.flushOn inode d now).2.1 := by
  by_cases hnil : w.pending = []
  · have hflush := flush_nil hnil (d.content w.path)
    simp only [flushOn, if_pos hnil, hflush]
    exact ⟨rfl, rfl, h, fun _ _ => ⟨rfl, rfl⟩⟩
  -- the handle, as `open_if_needed` leaves it
  obtain ⟨d', i, hopened, hnames, hcontent, hothers⟩ : ∃ d' i,
      (if w.handle then (d, inode) else d.openAppend w.path now) = (d', i) ∧ d'.names w.path = some i ∧
        (∀ path, d'.content path = d.content path) ∧ ∀ path ≠ w.path, d'.names path = d.names path := by
    by_cases hhandle : w.handle
    · exact ⟨d, inode, if_pos hhandle, h hhandle, fun _ => rfl, fun _ _ => rfl⟩
    · refine ⟨_, _, if_neg hhandle, Disk.names_openAppend .., Disk.content_openAppend d w.path now, ?_⟩
      exact fun path hne => Disk.names_openAppend_of_ne d hne now
  have hinode : d'.inodes i = d.content w.path := by
    rw [← Disk.content_of_names hnames, hcontent]
  have happend (path : String) : (d'.append i w.pending now).content path
      = if path = w.path then d.content w.path ++ w.pending else d.content path := by
    rw [Disk.content_append hnames, hcontent, hcontent]
  have hpath := path_writeThrough w (d.content w.path)
  have hfile : (w.writeThrough (d.content w.path)).2 = (d'.append i w.pending now).content w.path := by
    rw [happend, if_pos rfl]
    rfl
  simp only [flushOn, flush, hnil, if_false, hopened, hinode]
  by_cases hover : w.onDisk + w.pending.length > max (w.cap * compactMultiple) w.retryFloor
  · have hrewrite := rewriteOn_does (w := (w.writeThrough (d.content w.path)).1) (d := d'.append i w.pending now)
      (hpath.symm ▸ hnames) now
    rw [hpath] at hrewrite
    simp only [if_pos hover, hfile]
    refine ⟨hrewrite.writer, hrewrite.content, hrewrite.handle, fun other hne => ?_⟩
    obtain ⟨hsame, hnamed⟩ := hrewrite.others other hne
    exact ⟨hsame.trans ((happend other).trans (if_neg hne)), hnamed.trans (hothers other hne)⟩
  · simp only [if_neg hover]
    refine ⟨rfl, hfile.symm, fun _ => hnames, fun other hne => ?_⟩
    exact ⟨(happend other).trans (if_neg hne), hothers other hne⟩

end Writer

/-! ## §3 What a sweep may take away -/

namespace Sweeping

variable (sweep : Sweeping)

/-- The sweep will not take the path away any more. -/
def Spares (sweep : Sweeping) (path : String) : Prop :=
  path ∈ sweep.live ∨ sweep.listed = true ∧ path ∉ sweep.doomed

instance (sweep : Sweeping) (path : String) : Decidable (sweep.Spares path) := inferInstanceAs (Decidable (_ ∨ _))

/-- Nothing in the snapshot is dated, or to go. -/
def Apart (sweep : Sweeping) : Prop :=
  ∀ path ∈ sweep.live, path ∉ sweep.doomed ∧ path ∉ sweep.dated.map (·.1)

theorem Spares.not_doomed {sweep : Sweeping} {path : String} (h : sweep.Spares path) (hapart : sweep.Apart) :
    path ∉ sweep.doomed := by
  rcases h with hlive | ⟨-, hnot⟩
  · exact (hapart path hlive).1
  · exact hnot

/-- What each step of a sweep keeps. -/
def Steps (sweep next : Sweeping) : Prop :=
  (sweep.Apart → next.Apart) ∧ ∀ path, sweep.Spares path → next.Spares path

theorem steps_refl : Steps sweep sweep := ⟨id, fun _ => id⟩

theorem steps_visit (path : String) (mtime : Nat) : Steps sweep (sweep.visit path mtime) := by
  unfold visit
  split
  · exact steps_refl sweep
  split
  · exact steps_refl sweep
  case h_2.isFalse now _ hopen =>
    obtain ⟨hlisted, hdoomed, hlive⟩ : sweep.listed ≠ true ∧ sweep.doomed = [] ∧ path ∉ sweep.live := by
      simpa [not_or] using hopen
    -- the listing is going on, so what is spared is in the snapshot
    have hspared : ∀ next : Sweeping, next.live = sweep.live → ∀ other, sweep.Spares other → next.Spares other := by
      rintro next heq other (hmem | ⟨hover, -⟩)
      · exact .inl (heq ▸ hmem)
      · exact absurd hover hlisted
    split
    · refine ⟨fun hapart other hmem => ⟨?_, (hapart other hmem).2⟩, hspared _ rfl⟩
      rw [List.mem_singleton]
      rintro rfl
      exact hlive hmem
    · refine ⟨fun hapart other hmem => ⟨(hapart other hmem).1, ?_⟩, hspared _ rfl⟩
      rw [List.map_append, List.mem_append, not_or]
      refine ⟨(hapart other hmem).2, ?_⟩
      rw [List.map_singleton, List.mem_singleton]
      rintro rfl
      exact hlive hmem

theorem steps_rank : Steps sweep sweep.rank := by
  unfold rank
  split
  · exact steps_refl sweep
  case isFalse hopen =>
    obtain ⟨-, hlisted, -⟩ : sweep.now ≠ none ∧ sweep.listed ≠ true ∧ sweep.doomed = [] := by
      simpa [not_or] using hopen
    constructor
    · intro hapart path hmem
      obtain ⟨-, hdated⟩ := hapart path hmem
      refine ⟨?_, hdated⟩
      split
      · exact List.not_mem_nil
      · rw [List.mem_map]
        rintro ⟨entry, hentry, rfl⟩
        have hsorted := (List.mem_insertionSort _).mp (List.mem_of_mem_drop hentry)
        exact hdated (List.mem_map_of_mem hsorted)
    · rintro path (hmem | ⟨hover, -⟩)
      · exact .inl hmem
      · exact absurd hover hlisted

theorem steps_readDir (clock : Nat) :
    Steps sweep { sweep with now := sweep.now.or (some clock) } := ⟨id, fun _ => id⟩

theorem steps_unlink : Steps sweep { sweep with doomed := sweep.doomed.tail } := by
  constructor
  · intro hapart path hmem
    exact ⟨fun htail => (hapart path hmem).1 (List.mem_of_mem_tail htail), (hapart path hmem).2⟩
  · rintro path (hmem | ⟨hover, hnot⟩)
    · exact .inl hmem
    · exact .inr ⟨hover, fun htail => hnot (List.mem_of_mem_tail htail)⟩

end Sweeping

namespace SweptStore

variable {s : SweptStore} {e : Journaling} {pane : String}
variable {s' : SweptStore} {op : SweepOp}

/-- The path an operation registers a writer for. -/
def registers : SweepOp → Option String
  | .openEntry _ dir sessionId cap => if cap = 0 ∨ sessionId = "" then none else some (journalPath dir sessionId)
  | _ => none

/-- No sweep in flight may still take away what is opened. -/
def OpensSpared (s : SweptStore) (op : SweepOp) : Prop :=
  ∀ path ∈ registers op, ∀ sweep ∈ s.sweeps, sweep.Spares path

instance (s : SweptStore) (op : SweepOp) : Decidable (s.OpensSpared op) :=
  inferInstanceAs (Decidable (∀ path ∈ registers op, ∀ sweep ∈ s.sweeps, sweep.Spares path))

/-- What is opened is no other pane's journal. -/
def OpensAlone (s : SweptStore) : SweepOp → Prop
  | .openEntry pane dir sessionId _ => ∀ e ∈ s.panes.entries, e.1 ≠ pane → e.2.writer.path ≠ journalPath dir sessionId
  | _ => True

instance (s : SweptStore) (op : SweepOp) : Decidable (s.OpensAlone op) :=
  match op with
  | .openEntry pane dir sessionId _ => inferInstanceAs (Decidable (∀ e ∈ s.panes.entries, e.1 ≠ pane →
      e.2.writer.path ≠ journalPath dir sessionId))
  | .append .. | .flush _ | .close _ | .tick | .sweepStart .. | .readDir _ | .visit .. | .rank _ | .unlink _ =>
    .isTrue trivial

/-- What is taken away no registered writer names. -/
def RemovesUnnamed (s : SweptStore) (op : SweepOp) : Prop := ∀ path ∈ s.removes op, ¬ s.Names path

instance (s : SweptStore) (path : String) : Decidable (s.Names path) :=
  inferInstanceAs (Decidable (∃ e ∈ s.panes.entries, e.2.writer.path = path))

instance (s : SweptStore) (op : SweepOp) : Decidable (s.RemovesUnnamed op) :=
  inferInstanceAs (Decidable (∀ path ∈ s.removes op, ¬ s.Names path))

/-- No sweep in flight takes away what a registered writer names. -/
structure Guarded (s : SweptStore) : Prop where
  apart : ∀ sweep ∈ s.sweeps, sweep.Apart
  spared : ∀ sweep ∈ s.sweeps, ∀ e ∈ s.panes.entries, sweep.Spares e.2.writer.path

theorem Guarded.removesUnnamed (h : s.Guarded) (op : SweepOp) : s.RemovesUnnamed op := by
  cases op with
  | unlink k =>
    rintro path hpath ⟨e, he, rfl⟩
    rw [removes, Option.mem_def, Option.bind_eq_some_iff] at hpath
    obtain ⟨sweep, hsweep, hhead⟩ := hpath
    have hmem := List.mem_of_getElem? hsweep
    exact (h.spared sweep hmem e he).not_doomed (h.apart sweep hmem) (List.mem_of_mem_head? hhead)
  | _ => exact nofun

theorem Guarded.onSweep (h : s.Guarded) {k : Nat} {f : Sweeping → Sweeping}
    (hf : ∀ sweep, Sweeping.Steps sweep (f sweep)) : (s.onSweep k f).Guarded := by
  have hcases : ∀ sweep ∈ s.sweeps.modify k f, ∃ sweep' ∈ s.sweeps, Sweeping.Steps sweep' sweep := by
    intro sweep hmem
    obtain ⟨i, hi⟩ := List.mem_iff_getElem?.mp hmem
    rw [List.getElem?_modify] at hi
    obtain ⟨sweep', hsweep', heq⟩ := Option.map_eq_some_iff.mp hi
    refine ⟨sweep', List.mem_of_getElem? hsweep', ?_⟩
    subst heq
    split
    · exact hf sweep'
    · exact Sweeping.steps_refl sweep'
  constructor
  · intro sweep hmem
    obtain ⟨sweep', hmem', hstep⟩ := hcases sweep hmem
    exact hstep.1 (h.apart sweep' hmem')
  · intro sweep hmem e he
    obtain ⟨sweep', hmem', hstep⟩ := hcases sweep hmem
    exact hstep.2 _ (h.spared sweep' hmem' e he)

theorem Guarded.panes (h : s.Guarded) (hsweeps : s'.sweeps = s.sweeps)
    (hpanes : ∀ e ∈ s'.panes.entries, ∃ e' ∈ s.panes.entries, e'.2.writer.path = e.2.writer.path) : s'.Guarded := by
  constructor
  · intro sweep hmem
    exact h.apart sweep (hsweeps ▸ hmem)
  · intro sweep hmem e he
    obtain ⟨e', he', hpath⟩ := hpanes e he
    rw [← hpath]
    exact h.spared sweep (hsweeps ▸ hmem) e' he'

theorem path_flushed (s : SweptStore) (e : Journaling) : (s.flushed e).1.writer.path = e.writer.path :=
  Writer.path_flushOn ..

theorem step_guarded (hop : s.OpensSpared op) (h : s.Guarded) : (s.step op).Guarded := by
  cases op with
  | openEntry pane dir sessionId cap =>
    rw [OpensSpared, registers] at hop
    rw [step]
    split
    · exact h
    case isFalse hregisters =>
      rw [if_neg hregisters] at hop
      refine ⟨h.apart, fun sweep hmem e he => ?_⟩
      rcases HashMap.mem_entries_insert.mp he with rfl | ⟨he, -⟩
      · exact hop _ rfl sweep hmem
      · exact h.spared sweep hmem e he
  | append pane chunk streamEnd =>
    rw [step]
    split
    · exact h
    case h_2 e hlookup =>
      split
      · exact h
      · refine h.panes rfl fun e' he' => ?_
        rcases HashMap.mem_entries_insert.mp he' with rfl | ⟨he', -⟩
        · exact ⟨⟨pane, e⟩, (HashMap.mem_entries ..).mpr hlookup, rfl⟩
        · exact ⟨e', he', rfl⟩
  | flush pane =>
    rw [step]
    split
    · exact h
    case h_2 e hlookup =>
      refine h.panes rfl fun e' he' => ?_
      rcases HashMap.mem_entries_insert.mp he' with rfl | ⟨he', -⟩
      · exact ⟨⟨pane, e⟩, (HashMap.mem_entries ..).mpr hlookup, (path_flushed s e).symm⟩
      · exact ⟨e', he', rfl⟩
  | close pane =>
    rw [step]
    split
    · exact h
    · exact h.panes rfl fun e' he' => ⟨e', (HashMap.mem_entries_erase.mp he').1, rfl⟩
  | tick => exact ⟨h.apart, h.spared⟩
  | sweepStart maxAge keepNewest =>
    constructor
    · intro sweep hmem
      rcases List.mem_append.mp hmem with hmem | hmem
      · exact h.apart sweep hmem
      · rw [List.mem_singleton.mp hmem]
        exact fun _ _ => ⟨List.not_mem_nil, List.not_mem_nil⟩
    · intro sweep hmem e he
      rcases List.mem_append.mp hmem with hmem | hmem
      · exact h.spared sweep hmem e he
      · rw [List.mem_singleton.mp hmem]
        exact .inl (List.mem_map_of_mem he)
  | readDir k => exact h.onSweep fun sweep => sweep.steps_readDir s.clock
  | visit k path => exact h.onSweep fun sweep => sweep.steps_visit path _
  | rank k => exact h.onSweep Sweeping.steps_rank
  | unlink k =>
    rw [step]
    split
    · exact h
    · have hnext := h.onSweep (k := k) Sweeping.steps_unlink
      exact ⟨hnext.apart, hnext.spared⟩

/-! ## §4 What the panes' files are -/

/-- No two panes have one journal. -/
def Alone (s : SweptStore) : Prop :=
  ∀ e ∈ s.panes.entries, ∀ e' ∈ s.panes.entries, e.2.writer.path = e'.2.writer.path → e.1 = e'.1

/-- What is kept while no journal is taken away or shared. -/
structure Held (s : SweptStore) : Prop where
  guarded : s.Guarded
  alone : s.Alone
  kept : s.Kept

theorem Alone.insert (h : s.Alone) {e' : Journaling}
    (he : s.panes.lookup pane = some e) (hpath : e'.writer.path = e.writer.path)
    (hpanes : s'.panes = s.panes.insert pane e') : s'.Alone := by
  have horigin : ∀ a ∈ s'.panes.entries, ∃ b ∈ s.panes.entries, b.1 = a.1 ∧ b.2.writer.path = a.2.writer.path := by
    intro a ha
    rw [hpanes] at ha
    rcases HashMap.mem_entries_insert.mp ha with rfl | ⟨ha, -⟩
    · exact ⟨⟨pane, e⟩, (HashMap.mem_entries ..).mpr he, rfl, hpath.symm⟩
    · exact ⟨a, ha, rfl, rfl⟩
  intro a ha b hb hab
  obtain ⟨a', ha', hkey, hpatha⟩ := horigin a ha
  obtain ⟨b', hb', hkey', hpathb⟩ := horigin b hb
  rw [← hkey, ← hkey']
  exact h a' ha' b' hb' (hpatha.trans (hab.trans hpathb.symm))

theorem flushed_does (h : s.Kept) (he : s.panes.lookup pane = some e) :
    Writer.Does s.disk (s.flushed e).2 e.writer.path (e.writer.flush e.expected) (s.flushed e).1.writer
      (s.flushed e).1.inode := by
  obtain ⟨hcontent, hhandle⟩ := h ⟨pane, e⟩ ((HashMap.mem_entries ..).mpr he)
  have hdoes := Writer.flushOn_does hhandle s.clock
  rw [show s.disk.content e.writer.path = e.expected from hcontent] at hdoes
  exact hdoes

theorem Held.others (h : s.Held)
    (he : s.panes.lookup pane = some e) {e' : Sigma fun _ : String => Journaling} (he' : e' ∈ s.panes.entries)
    (hne : e'.1 ≠ pane) : (s.flushed e).2.content e'.2.writer.path = e'.2.expected ∧
      (e'.2.writer.handle → (s.flushed e).2.names e'.2.writer.path = some e'.2.inode) := by
  have hpath : e'.2.writer.path ≠ e.writer.path := by
    intro heq
    exact hne (h.alone e' he' ⟨pane, e⟩ ((HashMap.mem_entries ..).mpr he) heq)
  obtain ⟨hcontent, hnames⟩ := (flushed_does h.kept he).others _ hpath
  rw [hcontent, hnames]
  exact h.kept e' he'

theorem step_held (hspared : s.OpensSpared op) (halone : s.OpensAlone op)
    (h : s.Held) : (s.step op).Held := by
  have hguarded := step_guarded hspared h.guarded
  have hquiet : (s.step op).panes = s.panes → (s.step op).disk = s.disk → (s.step op).Held := by
    intro hpanes hdisk
    refine ⟨hguarded, ?_, ?_⟩
    · rw [Alone, hpanes]
      exact h.alone
    · rw [Kept, hpanes, hdisk]
      exact h.kept
  cases op with
  | openEntry pane dir sessionId cap =>
    by_cases hregisters : cap = 0 ∨ sessionId = ""
    · have hstep : s.step (.openEntry pane dir sessionId cap) = s := if_pos hregisters
      rw [hstep]
      exact h
    refine ⟨hguarded, ?_, ?_⟩
    all_goals rw [step, if_neg hregisters]
    · intro a ha b hb hab
      rcases HashMap.mem_entries_insert.mp ha with rfl | ⟨ha, hnea⟩ <;>
        rcases HashMap.mem_entries_insert.mp hb with rfl | ⟨hb, hneb⟩
      · rfl
      · exact absurd hab.symm (halone b hb hneb)
      · exact absurd hab (halone a ha hnea)
      · exact h.alone a ha b hb hab
    · intro e he
      rcases HashMap.mem_entries_insert.mp he with rfl | ⟨he, -⟩
      · exact ⟨rfl, nofun⟩
      · exact h.kept e he
  | append pane chunk streamEnd =>
    cases hlookup : s.panes.lookup pane with
    | none => exact hquiet (by simp [step, hlookup]) (by simp [step, hlookup])
    | some e =>
      by_cases hchunk : chunk = []
      · exact hquiet (by simp [step, hlookup, hchunk]) (by simp [step, hlookup, hchunk])
      · have hpanes : (s.step (.append pane chunk streamEnd)).panes = s.panes.insert pane
            { e with writer := { e.writer with pending := e.writer.pending ++ chunk, pendingEnd := streamEnd } } := by
          simp only [step, hlookup, if_neg hchunk]
        refine ⟨hguarded, h.alone.insert hlookup ?_ hpanes, ?_⟩
        · rfl
        intro e' he'
        simp only [step, hlookup, if_neg hchunk] at he' ⊢
        rcases HashMap.mem_entries_insert.mp he' with rfl | ⟨he', -⟩
        · exact h.kept ⟨pane, e⟩ ((HashMap.mem_entries ..).mpr hlookup)
        · exact h.kept e' he'
  | flush pane =>
    cases hlookup : s.panes.lookup pane with
    | none => exact hquiet (by simp [step, hlookup]) (by simp [step, hlookup])
    | some e =>
      refine ⟨hguarded, h.alone.insert hlookup (path_flushed s e) (by simp only [step, hlookup]), ?_⟩
      intro e' he'
      simp only [step, hlookup] at he' ⊢
      rcases HashMap.mem_entries_insert.mp he' with rfl | ⟨he', hne⟩
      · have hdoes := flushed_does h.kept hlookup
        simp only [path_flushed]
        exact ⟨hdoes.content, hdoes.handle⟩
      · exact h.others hlookup he' hne
  | close pane =>
    cases hlookup : s.panes.lookup pane with
    | none => exact hquiet (by simp [step, hlookup]) (by simp [step, hlookup])
    | some e =>
      refine ⟨hguarded, ?_, ?_⟩
      · intro a ha b hb hab
        simp only [step, hlookup] at ha hb
        exact h.alone a (HashMap.mem_entries_erase.mp ha).1 b (HashMap.mem_entries_erase.mp hb).1 hab
      · intro e' he'
        simp only [step, hlookup] at he' ⊢
        obtain ⟨he', hne⟩ := HashMap.mem_entries_erase.mp he'
        exact h.others hlookup he' hne
  | tick => exact hquiet rfl rfl
  | sweepStart maxAge keepNewest => exact hquiet rfl rfl
  | readDir k => exact hquiet rfl rfl
  | visit k path => exact hquiet rfl rfl
  | rank k => exact hquiet rfl rfl
  | unlink k =>
    cases hremoves : s.removes (.unlink k) with
    | none => exact hquiet (by simp [step, hremoves]) (by simp [step, hremoves])
    | some path =>
      have hunnamed := h.guarded.removesUnnamed (.unlink k) path hremoves
      refine ⟨hguarded, ?_, ?_⟩
      all_goals simp only [step, hremoves]
      · exact h.alone
      · intro e he
        have hne : e.2.writer.path ≠ path := fun heq => hunnamed ⟨e, he, heq⟩
        rw [Disk.content_unlink_of_ne _ hne, Disk.names_unlink_of_ne _ hne]
        exact h.kept e he

theorem guarded_start (disk : Disk String UInt8) (clock : Nat) : (start disk clock).Guarded := ⟨nofun, nofun⟩

/-- Sweeps beside the panes that write. In every run in which no writer is
registered for a path that a sweep in flight may still take away, no path is
taken away that a registered writer names; and if no two panes have one
journal, each pane's file is throughout what its own flushes made of what it
found. -/
theorem sweep_spares_live {disk : Disk String UInt8} {clock : Nat} {ops : List SweepOp}
    (hspared : Meets step OpensSpared (start disk clock) ops) :
    Meets step RemovesUnnamed (start disk clock) ops ∧
    (Meets step OpensAlone (start disk clock) ops → Throughout step Kept (start disk clock) ops) := by
  constructor
  · refine hspared.weaken Guarded (fun s op hop hs => ?_) (guarded_start disk clock)
    exact ⟨hs.removesUnnamed op, step_guarded hop hs⟩
  · intro halone
    have hstart : (start disk clock).Held := ⟨guarded_start disk clock, nofun, nofun⟩
    have hheld := (hspared.and halone).throughout Held (fun s op hop hs => step_held hop.1 hop.2 hs) hstart
    exact hheld.imp fun _ => Held.kept

/-- An old journal, at the time 9. -/
def oldJournal : Disk String UInt8 := Disk.empty.replace (journalPath "d" "S") [0x61] 0

/-- A pane that is opened before a sweep takes its snapshot, and another
journal that the sweep takes away. -/
def openedBefore : List SweepOp :=
  [.openEntry "pane" "d" "S" 100, .append "pane" [0x62] 1, .flush "pane", .sweepStart 5 9, .readDir 0,
    .visit 0 (journalPath "d" "S"), .visit 0 (journalPath "d" "T"), .unlink 0, .rank 0, .append "pane" [0x63] 2,
    .flush "pane"]

theorem sweep_spares_live_opened : Meets step RemovesUnnamed (start oldJournal 9) openedBefore ∧
    Throughout step Kept (start oldJournal 9) openedBefore := by
  obtain ⟨hunnamed, hkept⟩ := @sweep_spares_live oldJournal 9 openedBefore (by decide)
  exact ⟨hunnamed, hkept (by decide)⟩

/-- A pane that is opened behind the snapshot of a sweep. -/
def openedBehind : List SweepOp :=
  [.sweepStart 5 9, .openEntry "pane" "d" "S" 100, .readDir 0, .visit 0 (journalPath "d" "S"),
    .append "pane" [0x62] 1, .flush "pane", .unlink 0, .append "pane" [0x63] 2, .flush "pane"]

/-- Its journal is taken away, and what it flushes cannot be read. -/
theorem sweep_takes_live : ¬ Meets step RemovesUnnamed (start oldJournal 9) openedBehind ∧
    (run step (start oldJournal 9) openedBehind).disk.read (journalPath "d" "S") = none := by
  decide

end SweptStore

end SlopDesk.Superd
