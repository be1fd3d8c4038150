/-
SlopDesk.Document.Intent — the arguments of the topology changes a client
may ask for (`slopdesk-wire/src/document/intent.rs`).

Every payload is fixed fields, and a text or a blob behind its length; one
that is over its cap, does not decode or leaves bytes behind is malformed.
-/
import SlopDesk.Document.Cells

namespace SlopDesk.Document

open SlopDesk.Base
open SlopDesk.Wire
open SlopDesk.Tree

inductive WorkspaceIntentOp where
  | adoptWorkspace
  | renamePane
  | renameTab
  | renameSession
  | closePane
  | closeTab
  | splitPane
  | movePane
  | reorderTabs
  | focusTab
  | focusPane
  | setSyncInput
  | spawnPane
  | spawnTab
  | setZoom
  | detachPane
  | reattachPane
  | setDividerWeight
  | newSession
  | closeSession
  | reopenClosedTab
  | breakPaneToTab
  | swapPanes
  | dockPaneAtTabEdge
  | setTabLayout
  | spawnDetachedPane
  | setPaneVideoTarget
  deriving DecidableEq

namespace WorkspaceIntentOp

/-- `ALL`, in wire order. -/
def all : List WorkspaceIntentOp :=
  [.adoptWorkspace, .renamePane, .renameTab, .renameSession, .closePane, .closeTab, .splitPane,
    .movePane, .reorderTabs, .focusTab, .focusPane, .setSyncInput, .spawnPane, .spawnTab, .setZoom,
    .detachPane, .reattachPane, .setDividerWeight, .newSession, .closeSession, .reopenClosedTab,
    .breakPaneToTab, .swapPanes, .dockPaneAtTabEdge, .setTabLayout, .spawnDetachedPane,
    .setPaneVideoTarget]

def fromByte (byte : UInt8) : Option WorkspaceIntentOp := all[byte.toNat]?

def asByte (op : WorkspaceIntentOp) : UInt8 := UInt8.ofNat (all.idxOf op)

end WorkspaceIntentOp

/-- `MAX_NAME_BYTES`. -/
def maxNameBytes : Nat := 512

/-- `MAX_TAB_COUNT`. -/
def maxTabCount : Nat := 4096

/-- `MAX_BLOB_BYTES`. -/
def maxBlobBytes : Nat := 16384

/-! ## Fields -/

/-- `read_name`: over-long is malformed, never clamped. -/
def readName (context : String) : Decoder String := do
  let declared ← readU16
  if declared.toNat > maxNameBytes then
    .throw (.malformedBody (context ++ ": name " ++ toString declared.toNat ++ " > "
      ++ toString maxNameBytes))
  else do
    let bytes ← readBytes declared.toNat
    match String.fromUTF8? ⟨bytes.toArray⟩ with
    | some name => pure name
    | none => .throw (.malformedBody (context ++ ": name is not valid UTF-8"))

def readBlob (context : String) : Decoder (List UInt8) := do
  let declared ← readU16
  if declared.toNat > maxBlobBytes then
    .throw (.malformedBody (context ++ ": blob " ++ toString declared.toNat ++ " > "
      ++ toString maxBlobBytes))
  else readBytes declared.toNat

/-- The answer of a payload's reader, over all of `data`. -/
def decodePayload (p : Decoder α) (data : List UInt8) : Outcome WireError α := do
  let r ← p.run data 0
  pure r.1

/-! ## Payloads -/

def decodeIdentity (data : List UInt8) : Outcome WireError RawUuid :=
  decodePayload (do
    let id ← readUuid
    expectEnd "intent identity: trailing bytes" id) data

def decodeName (data : List UInt8) : Outcome WireError (RawUuid × String) :=
  decodePayload (do
    let id ← readUuid
    let name ← readName "intent rename"
    expectEnd "intent rename: trailing bytes" (id, name)) data

def decodeFlag (data : List UInt8) : Outcome WireError (RawUuid × Bool) :=
  decodePayload (do
    let id ← readUuid
    let flag ← readBool
    expectEnd "intent flag: trailing bytes" (id, flag)) data

structure SplitArgs where
  target : RawUuid
  axis : SplitAxis
  before : Bool
  newPane : RawUuid
  spawnCwd : String

def decodeSplit (data : List UInt8) : Outcome WireError SplitArgs :=
  decodePayload (do
    let target ← readUuid
    let axis ← readU8
    let before ← readBool
    let newPane ← readUuid
    let spawnCwd ← readName "intent split"
    expectEnd "intent split: trailing bytes" ⟨target, .fromByte axis, before, newPane, spawnCwd⟩) data

structure MoveArgs where
  source : RawUuid
  target : RawUuid
  axis : SplitAxis
  before : Bool
  deriving DecidableEq

def decodeMove (data : List UInt8) : Outcome WireError MoveArgs :=
  decodePayload (do
    let source ← readUuid
    let target ← readUuid
    let axis ← readU8
    let before ← readBool
    expectEnd "intent move: trailing bytes" ⟨source, target, .fromByte axis, before⟩) data

def decodeReorderTabs (data : List UInt8) : Outcome WireError (RawUuid × List RawUuid) :=
  decodePayload (do
    let session ← readUuid
    let count ← readU16
    if count.toNat > maxTabCount then
      .throw (.malformedBody ("intent reorderTabs: count " ++ toString count.toNat ++ " > "
        ++ toString maxTabCount))
    else do
      let left ← bytesRemaining
      if left < count.toNat * sessionIdByteCount then
        .throw (.malformedBody ("intent reorderTabs: " ++ toString count.toNat ++ " tabs need "
          ++ toString (count.toNat * sessionIdByteCount) ++ " bytes"))
      else do
        let tabs ← readMany readUuid count.toNat
        expectEnd "intent reorderTabs: trailing bytes" (session, tabs)) data

structure SpawnTabArgs where
  session : RawUuid
  newPane : RawUuid
  position : NewTabPosition
  spawnCwd : String

def decodeSpawnTab (data : List UInt8) : Outcome WireError SpawnTabArgs :=
  decodePayload (do
    let session ← readUuid
    let newPane ← readUuid
    let position ← readU8
    let spawnCwd ← readName "intent spawnTab"
    expectEnd "intent spawnTab: trailing bytes" ⟨session, newPane, .fromByte position, spawnCwd⟩) data

structure NewSessionArgs where
  session : RawUuid
  newPane : RawUuid
  name : String
  spawnCwd : String

def decodeNewSession (data : List UInt8) : Outcome WireError NewSessionArgs :=
  decodePayload (do
    let session ← readUuid
    let newPane ← readUuid
    let name ← readName "intent newSession"
    let spawnCwd ← readName "intent newSession"
    expectEnd "intent newSession: trailing bytes" ⟨session, newPane, name, spawnCwd⟩) data

def decodeSwapPanes (data : List UInt8) : Outcome WireError (RawUuid × RawUuid) :=
  decodePayload (do
    let first ← readUuid
    let second ← readUuid
    expectEnd "intent swapPanes: trailing bytes" (first, second)) data

structure DockArgs where
  source : RawUuid
  tab : RawUuid
  edge : PaneDropEdge

def decodeDockAtTabEdge (data : List UInt8) : Outcome WireError DockArgs :=
  decodePayload (do
    let source ← readUuid
    let tab ← readUuid
    let edge ← readU8
    expectEnd "intent dockPaneAtTabEdge: trailing bytes" ⟨source, tab, .fromByte edge⟩) data

/-- `decode_set_tab_layout`: the layout is handed back unparsed. -/
def decodeSetTabLayout (data : List UInt8) : Outcome WireError (RawUuid × List UInt8) :=
  decodePayload (do
    let tab ← readUuid
    let left ← bytesRemaining
    if left > maxBlobBytes then
      .throw (.malformedBody ("intent setTabLayout: blob " ++ toString left ++ " > "
        ++ toString maxBlobBytes))
    else do
      let blob ← remaining
      pure (tab, blob)) data

structure SpawnDetachedArgs where
  newPane : RawUuid
  kind : PaneKind
  video : List UInt8

def decodeSpawnDetachedPane (data : List UInt8) : Outcome WireError SpawnDetachedArgs :=
  decodePayload (do
    let newPane ← readUuid
    let kind ← readU8
    let video ← readBlob "intent spawnDetachedPane"
    expectEnd "intent spawnDetachedPane: trailing bytes" ⟨newPane, .fromByte kind, video⟩) data

def decodeSetPaneVideoTarget (data : List UInt8) : Outcome WireError (RawUuid × List UInt8) :=
  decodePayload (do
    let pane ← readUuid
    let video ← readBlob "intent setPaneVideoTarget"
    expectEnd "intent setPaneVideoTarget: trailing bytes" (pane, video)) data

def decodeReopenClosedTab (data : List UInt8) : Outcome WireError (UInt16 × NewTabPosition) :=
  decodePayload (do
    let lifoIndex ← readU16
    let position ← readU8
    expectEnd "intent reopenClosedTab: trailing bytes" (lifoIndex, .fromByte position)) data

def decodeDividerWeight (data : List UInt8) : Outcome WireError (RawUuid × UInt16 × F64) :=
  decodePayload (do
    let split ← readUuid
    let leadingIndex ← readU16
    let leadingWeight ← readU64
    expectEnd "intent setDividerWeight: trailing bytes" (split, leadingIndex, ⟨leadingWeight⟩)) data

end SlopDesk.Document
