/-
SlopDesk.Document.Cells — the values the cells of a workspace hold
(`slopdesk-wire/src/document/codec.rs` and `fields.rs`).

A tab's tree is written without its weights, in pre-order; the weights of
each split are a cell of their own. Counts are one byte or two, so what is
past them is not written, and a reader answers nothing for a value its
bytes do not back exactly.
-/
import SlopDesk.Document.Codec
import SlopDesk.Tree.Workspace

namespace SlopDesk.Document

open SlopDesk.Base
open SlopDesk.Wire
open SlopDesk.Tree

/-! ## Where the cells are -/

/-- `ROOT_OBJECT_ID`. -/
def rootObjectId : RawUuid := ⟨List.replicate 16 0, List.length_replicate⟩

namespace WorkspaceKey

def root (field : UInt8) : WorkspaceKey := ⟨0, rootObjectId, field⟩

/-- `of`, for a session. -/
def session (id : SessionId) (field : UInt8) : WorkspaceKey := ⟨1, id, field⟩

/-- `of`, for a tab. -/
def tab (id : TabId) (field : UInt8) : WorkspaceKey := ⟨2, id, field⟩

/-- `of`, for a pane. -/
def pane (id : PaneId) (field : UInt8) : WorkspaceKey := ⟨3, id, field⟩

/-- `of`, for a split. -/
def splitNode (id : SplitNodeId) (field : UInt8) : WorkspaceKey := ⟨4, id, field⟩

end WorkspaceKey

namespace Field

def rootSessionOrder : UInt8 := 0
def rootActiveSessionId : UInt8 := 1
def rootHostDisplayName : UInt8 := 2
def rootClosedTabRing : UInt8 := 6
def rootUnattachedSessionId : UInt8 := 7
def sessionName : UInt8 := 0
def sessionTabOrder : UInt8 := 1
def sessionActiveTabId : UInt8 := 2
def sessionDetachedPanes : UInt8 := 3
def sessionFocusMru : UInt8 := 4
def tabTitle : UInt8 := 0
def tabSessionId : UInt8 := 1
def tabLayoutStructure : UInt8 := 2
def tabActivePaneId : UInt8 := 3
def tabZoomedPaneId : UInt8 := 4
def tabSyncInputArmed : UInt8 := 5
def paneKind : UInt8 := 0
def paneTitle : UInt8 := 1
def paneUserRenamed : UInt8 := 2
def paneVideoTarget : UInt8 := 20
def paneSpawnCwd : UInt8 := 21
def splitNodeWeight : UInt8 := 0

end Field

/-! ## Encodings and their readers -/

/-- The bytes a sequence of writes leaves. -/
def written (put : Put) : List UInt8 := (put.run ByteWriter.new).2.intoVec

/-- What a reader makes of all of `data`: nothing when it faults or leaves
some of it. -/
def readExactly (p : Decoder α) (data : List UInt8) : Option α :=
  match p.run data 0 with
  | .ok (value, stop) => if stop = data.length then some value else none
  | _ => none

/-- `u16::try_from(count).unwrap_or(u16::MAX)`, of a count that is capped
there. -/
def countU16 (count : Nat) : UInt16 := UInt16.ofNat (min count 65535)

/-- `MAX_STRING_BYTES`. -/
def maxStringBytes : Nat := 65535

def encodeString (text : String) (maxBytes : Nat) : List UInt8 := utf8Bytes (clampUtf8 text maxBytes)

def decodeString (data : List UInt8) : Option String := String.fromUTF8? ⟨data.toArray⟩

def encodeU8 (value : UInt8) : List UInt8 := [value]

def decodeU8 : List UInt8 → Option UInt8
  | [byte] => some byte
  | _ => none

def encodeBool (value : Bool) : List UInt8 := encodeU8 (if value then 1 else 0)

def decodeBool (data : List UInt8) : Option Bool := (decodeU8 data).map fun byte => byte != 0

def encodeUuid (id : RawUuid) : List UInt8 := id.bytes

def decodeUuid (data : List UInt8) : Option RawUuid :=
  if h : data.length = sessionIdByteCount then some ⟨data, h⟩ else none

def encodeUuidList (ids : List RawUuid) : List UInt8 :=
  written (do
    putU16 (countU16 ids.length)
    (ids.take 65535).forM fun id => putBytes id.bytes)

/-- The elements of a list of fixed-width records, once their count is
read and backed exactly. -/
def readRecords (width : Nat) (record : Decoder α) (count : Nat) : Decoder (List α) := do
  let left ← bytesRemaining
  if left ≠ count * width then .throw .truncated else readMany record count

def decodeUuidList (data : List UInt8) : Option (List RawUuid) :=
  readExactly (do
    let count ← readU16
    readRecords 16 readUuid count.toNat) data

/-- `encode_detached_panes`: no origin is the zero identity. -/
def encodeDetachedPanes (panes : List (RawUuid × Option RawUuid)) : List UInt8 :=
  written (do
    putU16 (countU16 panes.length)
    (panes.take 65535).forM fun (pane, origin) => do
      putBytes pane.bytes
      putBytes (origin.getD rootObjectId).bytes)

def decodeDetachedPanes (data : List UInt8) : Option (List (RawUuid × Option RawUuid)) :=
  readExactly (do
    let count ← readU16
    readRecords 32 (do
      let pane ← readUuid
      let origin ← readUuid
      pure (pane, if origin ≠ rootObjectId then some origin else none)) count.toNat) data

/-- A `u16` length and the bytes of a text. -/
def putU16Prefixed (text : String) : Put := do
  let bytes := utf8Bytes (clampUtf8 text maxStringBytes)
  putU16 (countU16 bytes.length)
  putBytes bytes

def encodeVideoTarget (endpoint : VideoEndpoint) : List UInt8 :=
  written (do
    putU32 endpoint.windowId
    putBool endpoint.displayId.isSome
    putU32 (endpoint.displayId.getD 0)
    putU16Prefixed endpoint.title
    putU16Prefixed endpoint.appName)

def decodeVideoTarget (data : List UInt8) : Option VideoEndpoint :=
  readExactly (do
    let windowId ← readU32
    let hasDisplay ← readBool
    let displayId ← readU32
    let title ← readLengthPrefixedStr "video target"
    let appName ← readLengthPrefixedStr "video target"
    pure { windowId := windowId, title := title, appName := appName,
           displayId := if hasDisplay then some displayId else none }) data

/-! ## Weights -/

def putWeight (weight : SplitWeight) : Put := do
  putU8 weight.kindByte
  putU64 weight.value.bits

def readWeight : Decoder SplitWeight := do
  let kind ← readU8
  let bits ← readU64
  pure (if kind = 0 then .flex ⟨bits⟩ else .fixed ⟨bits⟩)

def encodeWeights (weights : List SplitWeight) : List UInt8 :=
  written (do
    putU8 (UInt8.ofNat (min weights.length 255))
    (weights.take 255).forM putWeight)

def decodeWeights (data : List UInt8) : Option (List SplitWeight) :=
  readExactly (do
    let count ← readU8
    readRecords 9 readWeight count.toNat) data

/-! ## Layouts -/

inductive WorkspaceLayoutNode where
  | leaf (pane : RawUuid)
  | split (id : RawUuid) (axis : SplitAxis) (children : List WorkspaceLayoutNode)

/-- `MAX_LAYOUT_DEPTH`. -/
def maxLayoutDepth : Nat := 12

namespace WorkspaceLayoutNode

mutual

@[elab_as_elim, induction_eliminator]
theorem induct {motive : WorkspaceLayoutNode → Prop} (leaf : ∀ pane, motive (.leaf pane))
    (split : ∀ id axis children, (∀ child ∈ children, motive child) → motive (.split id axis children)) :
    ∀ node, motive node
  | .leaf pane => leaf pane
  | .split id axis children => split id axis children (inductAll leaf split children)

theorem inductAll {motive : WorkspaceLayoutNode → Prop} (leaf : ∀ pane, motive (.leaf pane))
    (split : ∀ id axis children, (∀ child ∈ children, motive child) → motive (.split id axis children)) :
    ∀ children : List WorkspaceLayoutNode, ∀ child ∈ children, motive child
  | [], _, h => absurd h List.not_mem_nil
  | node :: rest, _, h =>
    (List.mem_cons.mp h).elim (fun heq => heq ▸ induct leaf split node)
      fun h => inductAll leaf split rest _ h

end

end WorkspaceLayoutNode

mutual

/-- `put_layout`: the children past the two hundred and fifty-fifth are not
written. -/
def putLayout : WorkspaceLayoutNode → Put
  | .leaf pane => do
    putU8 0
    putBytes pane.bytes
  | .split id axis children => do
    putU8 1
    putBytes id.bytes
    putU8 axis.asByte
    putU8 (UInt8.ofNat (min children.length 255))
    putLayouts 255 children

/-- The first `left` of these. -/
def putLayouts (left : Nat) : List WorkspaceLayoutNode → Put
  | [] => pure ()
  | child :: rest =>
    match left with
    | 0 => pure ()
    | left + 1 => do
      putLayout child
      putLayouts left rest

end

def encodeLayout (node : WorkspaceLayoutNode) : List UInt8 := written (putLayout node)

/-- `read_layout_node`, with `left` levels to go before the depth cap. -/
def readLayoutNode : (left : Nat) → Decoder WorkspaceLayoutNode
  | 0 => .throw (.malformedBody ("workspace layout: nested past depth " ++ toString maxLayoutDepth))
  | left + 1 => do
    let tag ← readU8
    if tag = 0 then do
      let pane ← readUuid
      pure (.leaf pane)
    else if tag = 1 then do
      let id ← readUuid
      let axis ← readU8
      let childCount ← readU8
      let remaining ← bytesRemaining
      if remaining < childCount.toNat then
        .throw (.malformedBody ("workspace layout: " ++ toString childCount.toNat
          ++ " children need at least that many bytes"))
      else do
        let children ← readMany (readLayoutNode left) childCount.toNat
        pure (.split id (.fromByte axis) children)
    else .throw (.malformedBody ("workspace layout: unknown node tag " ++ toString tag.toNat))

def decodeLayout (data : List UInt8) : Outcome WireError WorkspaceLayoutNode := do
  let r ← (do
    let node ← readLayoutNode (maxLayoutDepth + 1)
    expectEnd "workspace layout: trailing bytes" node : Decoder WorkspaceLayoutNode).run data 0
  pure r.1

end SlopDesk.Document
