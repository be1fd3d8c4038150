/-
SlopDesk.Superd.BlockTracker — the live half of the command-block tap
(`slopdesk-superd/src/blocks.rs`).

The ring of finished outputs, what was last reported for each index, and
the two loops that evict. The wire's JSON is left out; so is `Unknown`,
which the tap never gives. Byte counts are unbounded.
-/
import SlopDesk.Base.HashMap
import SlopDesk.Superd.CommandBlocks

namespace SlopDesk.Superd

open SlopDesk.Base

/-- `u32::try_from(n).unwrap_or(u32::MAX)`. -/
def u32OrMax (n : Nat) : UInt32 := if n ≤ 4294967295 then UInt32.ofNat n else 4294967295

/-- `DEFAULT_MAX_BLOCKS`. -/
def defaultMaxBlocks : Nat := 64
/-- `DEFAULT_MAX_TOTAL_OUTPUT_BYTES`. -/
def defaultMaxTotalOutputBytes : Nat := 8 * 1024 * 1024

structure BlockMeta where
  index : UInt32
  exitCode : Option Int32
  durationMs : Option UInt32
  complete : Bool
  outputLen : UInt32
  commandText : String
  promptOrdinal : UInt32
  deriving DecidableEq

/-- The metadata of a block. -/
def CommandBlock.blockMeta (block : CommandBlock) : BlockMeta where
  index := u32OrMax block.index
  exitCode := block.exitCode
  durationMs := block.durationMs
  complete := block.complete
  outputLen := u32OrMax block.output.length
  commandText := block.commandText
  promptOrdinal := u32OrMax block.promptOrdinal

structure ControlBlock where
  index : UInt32
  commandText : String
  exitCode : Option Int32
  durationMs : Option UInt32
  complete : Bool
  output : List UInt8
  deriving DecidableEq

/-- `BlockEvent`: `Meta` and `Progress`. -/
inductive BlockEvent where
  | blockMeta (m : BlockMeta)
  | progress (p : SyntheticProgress)
  deriving DecidableEq

/-- One retained block's output. -/
structure Held where
  index : UInt32
  output : List UInt8
  deriving DecidableEq

structure BlockTracker where
  segmenter : CommandBlockSegmenter
  maxBlocks : Nat
  maxTotalOutputBytes : Nat
  /-- Oldest first. -/
  held : List Held
  totalOutputBytes : Nat
  lastReported : HashMap UInt32 BlockMeta

/-- A finished block compares on every field, two running states on all but
`output_len`. -/
def meaningfullyChanged (last next : BlockMeta) : Bool :=
  if next.complete || last.complete then last ≠ next
  else
    last.exitCode ≠ next.exitCode || last.durationMs ≠ next.durationMs || last.commandText ≠ next.commandText ||
      last.promptOrdinal ≠ next.promptOrdinal

/-- The first block of an index is given another output. -/
def setOutput (index : UInt32) (output : List UInt8) : List Held → List Held
  | [] => []
  | h :: held => if h.index = index then { h with output } :: held else h :: setOutput index output held

namespace BlockTracker

def new (autoProgressPrefixes : List String) (outputCap maxBlocks maxTotalOutputBytes : Nat) : BlockTracker where
  segmenter := .new outputCap autoProgressPrefixes
  maxBlocks := if maxBlocks = 0 then defaultMaxBlocks else maxBlocks
  maxTotalOutputBytes := if maxTotalOutputBytes = 0 then defaultMaxTotalOutputBytes else maxTotalOutputBytes
  held := []
  totalOutputBytes := 0
  lastReported := ∅

def reportIfChanged (t : BlockTracker) (block : CommandBlock) : BlockTracker × Option BlockMeta :=
  let m := block.blockMeta
  let worthSaying := ((t.lastReported.lookup m.index).map (meaningfullyChanged · m)).getD true
  ({ t with lastReported := t.lastReported.insert m.index m }, if worthSaying then some m else none)

def evictOldest (t : BlockTracker) : BlockTracker :=
  match t.held with
  | [] => t
  | gone :: held =>
    { t with
      held
      totalOutputBytes := t.totalOutputBytes - gone.output.length
      lastReported := t.lastReported.erase gone.index }

theorem evictOldest_shorter {t : BlockTracker} (h : t.held ≠ []) : t.evictOldest.held.length < t.held.length := by
  unfold evictOldest
  cases hheld : t.held with
  | nil => exact absurd hheld h
  | cons gone held => simp

/-- The loop on the count of blocks. -/
def evictToCount (t : BlockTracker) : BlockTracker :=
  if h : t.held.length > t.maxBlocks ∧ t.held ≠ [] then t.evictOldest.evictToCount else t
termination_by t.held.length
decreasing_by exact evictOldest_shorter h.2

/-- The loop on their bytes, which leaves one. -/
def evictToBytes (t : BlockTracker) : BlockTracker :=
  if h : t.totalOutputBytes > t.maxTotalOutputBytes ∧ t.held.length > 1 then t.evictOldest.evictToBytes else t
termination_by t.held.length
decreasing_by exact evictOldest_shorter (List.ne_nil_of_length_pos (by omega))

def evictToBounds (t : BlockTracker) : BlockTracker := t.evictToCount.evictToBytes

def store (t : BlockTracker) (block : CommandBlock) : BlockTracker :=
  let index := u32OrMax block.index
  let t : BlockTracker := match t.held.find? (·.index = index) with
    | some existing =>
      { t with
        totalOutputBytes := t.totalOutputBytes - existing.output.length + block.output.length
        held := setOutput index block.output t.held }
    | none =>
      { t with
        totalOutputBytes := t.totalOutputBytes + block.output.length
        held := t.held ++ [⟨index, block.output⟩] }
  t.evictToBounds

/-- The arm of `ingest` for a block that closed: reported, then retained. -/
def close (t : BlockTracker) (block : CommandBlock) : BlockTracker × List BlockMeta :=
  let (t, m) := t.reportIfChanged block
  (t.store block, m.toList)

/-- The arm for the block that is still open. -/
def reportOpen (t : BlockTracker) : BlockTracker × List BlockMeta :=
  match t.segmenter.peekOpenBlock with
  | none => (t, [])
  | some block =>
    let (t, m) := t.reportIfChanged block
    (t, m.toList)

def ingest (t : BlockTracker) (chunk : List UInt8) (nowMs : Int64) : BlockTracker × List BlockEvent :=
  let (segmenter, closed) := t.segmenter.ingest nowMs chunk
  let (segmenter, progress) := segmenter.drainAutoProgress
  let (t, said) := feed close { t with segmenter } closed
  let (t, running) := t.reportOpen
  (t, progress.map .progress ++ (said ++ running).map .blockMeta)

/-- `snapshot`: what is known, in ascending index order. -/
def snapshot (t : BlockTracker) : List BlockMeta :=
  (t.lastReported.keys.mergeSort fun a b => decide (a ≤ b)).filterMap t.lastReported.lookup

def output (t : BlockTracker) (index : UInt32) : Option (List UInt8) :=
  (t.held.find? (·.index = index)).map (·.output)

/-- `recent`: the last `limit` retained blocks. -/
def recent (t : BlockTracker) (limit : Nat) : List ControlBlock :=
  if limit = 0 then []
  else
    (t.held.drop (t.held.length - limit)).map fun h =>
      let m := t.lastReported.lookup h.index
      { index := h.index
        commandText := (m.map (·.commandText)).getD ""
        exitCode := m.bind (·.exitCode)
        durationMs := m.bind (·.durationMs)
        complete := (m.map (·.complete)).getD true
        output := h.output }

def openBlock (t : BlockTracker) : Option CommandBlock := t.segmenter.peekOpenBlock

def expectedNextIndex (t : BlockTracker) : UInt32 :=
  let running := if t.segmenter.peekOpenBlock.isSome then 1 else 0
  u32OrMax (t.segmenter.nextIndex + running)

end BlockTracker

end SlopDesk.Superd
