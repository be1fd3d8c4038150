/-
SlopDesk.Superd.Journal — one pane's transcript on disk
(`slopdesk-superd/src/journal.rs`).

The store here is what the source's table holds under one pane id,
together with the files. Nothing fails: a write takes everything, a
rewrite is atomic, and a file that is missing reads as empty. The size
sidecar, the sweep and the deletion of a journal are left out. A flush may
come at any time, from the writer thread or from a reader of the store.
-/
import SlopDesk.AltScreen.Reopen

namespace SlopDesk.Superd

open SlopDesk.AltScreen

/-- `COMPACT_MULTIPLE`. -/
def compactMultiple : Nat := 2

/-- `NEWLINE_SCAN_BYTES`. -/
def newlineScanBytes : Nat := 4096

/-- `ALT_PEEK_BYTES`. -/
def altPeekBytes : Nat := 64

/-- `journal_path`: the one place a journal is named. -/
def journalPath (dir sessionId : String) : String := dir ++ "/" ++ sessionId ++ ".scrollback"

/-- `Writer`. `handle` says that the file is open. -/
structure Writer where
  path : String
  cap : Nat
  handle : Bool
  onDisk : Nat
  pending : List UInt8
  pendingEnd : Nat
  flushedEnd : Nat
  retryFloor : Nat
  deriving DecidableEq

/-- What a rewrite leaves of a file longer than the cap: the newest
cap-worth from the next line on, with the alternate screen re-opened where
the cut beheads it. -/
def compacted (cap : Nat) (current : List UInt8) : List UInt8 :=
  let cut := current.length - cap
  let scanEnd := min current.length (cut + newlineScanBytes)
  let cut :=
    match ((current.take scanEnd).drop cut).findIdx? (· == 0x0A) with
    | some offset => cut + offset + 1
    | none => cut
  let tail := current.drop cut
  match reopenSequence (current.take cut) (tail.take altPeekBytes) with
  | some repaired => repaired ++ tail
  | none => tail

namespace Writer

def openIfNeeded (w : Writer) (file : List UInt8) : Writer :=
  if w.handle then w else { w with onDisk := file.length, handle := true }

def writeThrough (w : Writer) (file : List UInt8) : Writer × List UInt8 :=
  let opened := w.openIfNeeded file
  ({ opened with
      pending := []
      onDisk := opened.onDisk + w.pending.length
      flushedEnd := w.pendingEnd }, file ++ w.pending)

/-- `rewrite_to_tail`. The handle is dropped first: the rename is about to
replace the file it has open. -/
def rewriteToTail (w : Writer) (file : List UInt8) : Writer × List UInt8 :=
  if file.length ≤ w.cap then (w, file)
  else
    let tail := compacted w.cap file
    ({ w with handle := false, onDisk := tail.length, retryFloor := 0 }, tail)

def flush (w : Writer) (file : List UInt8) : Writer × List UInt8 :=
  if w.pending = [] then (w, file)
  else
    let ceiling := max (w.cap * compactMultiple) w.retryFloor
    let overCap := w.onDisk + w.pending.length > ceiling
    let (w, file) := w.writeThrough file
    if overCap then w.rewriteToTail file else (w, file)

theorem flush_nil {w : Writer} (h : w.pending = []) (file : List UInt8) : w.flush file = (w, file) := by
  simp [flush, h]

theorem flush_writer {w : Writer} (h : w.pending ≠ []) (file : List UInt8) :
    (w.flush file).1.path = w.path ∧ (w.flush file).1.pending = [] ∧
      (w.flush file).1.flushedEnd = w.pendingEnd := by
  have hpath : (w.openIfNeeded file).path = w.path := by
    unfold openIfNeeded
    split <;> rfl
  simp only [flush, h, if_false, writeThrough]
  split
  · grind [rewriteToTail]
  · exact ⟨hpath, rfl, rfl⟩

end Writer

/-! ## What compaction leaves -/

/-- `Compaction written file`: the file is what was written to it, cut by
rewrites on the way. -/
inductive Compaction : List UInt8 → List UInt8 → Prop
  | start (file : List UInt8) : Compaction file file
  | append {written file : List UInt8} (more : List UInt8) (h : Compaction written file) :
      Compaction (written ++ more) (file ++ more)
  | rewrite {written file : List UInt8} (cap : Nat) (h : Compaction written file) :
      Compaction written (compacted cap file)

theorem Compaction.flush {written file : List UInt8} (h : Compaction written file) (w : Writer) :
    Compaction (written ++ w.pending) (w.flush file).2 := by
  unfold Writer.flush
  split
  · rename_i hnil
    rw [hnil, List.append_nil]
    exact h
  · have happend := h.append w.pending
    dsimp only [Writer.writeThrough]
    split
    · unfold Writer.rewriteToTail
      split
      · exact happend
      · exact happend.rewrite _
    · exact happend

/-! ## The store -/

/-- `JournalStore`: the entry of one pane id, and the files. -/
structure JournalStore where
  writer : Option Writer
  files : String → List UInt8

namespace JournalStore

/-- `open`: a cap of zero, or no session, registers nothing. An entry that
was there is replaced as it stands. -/
def openEntry (s : JournalStore) (dir sessionId : String) (cap : Nat) : JournalStore :=
  if cap = 0 ∨ sessionId = "" then s
  else { s with writer := some ⟨journalPath dir sessionId, cap, false, 0, [], 0, 0, 0⟩ }

/-- `append`: without an entry the chunk goes nowhere. -/
def append (s : JournalStore) (chunk : List UInt8) (streamEnd : Nat) : JournalStore :=
  if chunk = [] then s
  else
    match s.writer with
    | none => s
    | some w => { s with writer := some { w with pending := w.pending ++ chunk, pendingEnd := streamEnd } }

def sync (s : JournalStore) : JournalStore :=
  match s.writer with
  | none => s
  | some w =>
    let (flushed, file) := w.flush (s.files w.path)
    { writer := some flushed, files := Function.update s.files w.path file }

/-- `head`, after a flush. -/
def head (s : JournalStore) : JournalStore × Option Nat := (s.sync, s.sync.writer.map (·.flushedEnd))

/-- `close`: the file is kept. -/
def close (s : JournalStore) : JournalStore := { s.sync with writer := none }

end JournalStore

end SlopDesk.Superd
