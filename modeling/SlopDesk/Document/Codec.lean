/-
SlopDesk.Document.Codec — the bytes of a snapshot and of a diff
(`slopdesk-wire/src/document/codec.rs`).

A snapshot is a count and that many entries; a diff is a count of entries
to set and a count of keys to delete. Every count is checked against a cap
and against the bytes that are left before anything is read under it.
-/
import SlopDesk.Document.State

namespace SlopDesk.Document

open SlopDesk.Base
open SlopDesk.Wire

/-- `MAX_ENTRY_COUNT`. -/
def maxEntryCount : UInt32 := 65536

/-- `WorkspaceKey::ENCODED_SIZE`. -/
def WorkspaceKey.encodedSize : Nat := 18

/-- `ENTRY_FLOOR_BYTES`. -/
def entryFloorBytes : Nat := WorkspaceKey.encodedSize + 4

/-- `MAX_ENTRY_VALUE_BYTES`. -/
def maxEntryValueBytes : Nat := 2147483647

/-- `u32::try_from(value).unwrap_or(u32::MAX)`. -/
def saturatingU32 (value : Nat) : UInt32 :=
  if value < 4294967296 then UInt32.ofNat value else UInt32.ofNat 4294967295

/-! ## Keys and entries -/

def putKey (key : WorkspaceKey) : Put := do
  putU8 key.kind
  putBytes key.objectId.bytes
  putU8 key.field

def readUuid : Decoder RawUuid := do
  let bytes ← readBytes sessionIdByteCount
  if h : bytes.length = sessionIdByteCount then pure ⟨bytes, h⟩ else .throw .truncated

def readKey : Decoder WorkspaceKey := do
  let kind ← readU8
  let objectId ← readUuid
  let field ← readU8
  pure ⟨kind, objectId, field⟩

def putEntry (entry : WorkspaceEntry) : Put := do
  putKey entry.key
  putU32 (saturatingU32 entry.value.length)
  putBytes entry.value

/-- The value of `read_entry`, once its length is declared. -/
def readValue (declared : Nat) : Decoder (List UInt8) := do
  let left ← bytesRemaining
  if declared > maxEntryValueBytes ∨ left < declared then
    .throw (.malformedBody ("workspace entry: value " ++ toString declared ++ " exceeds the "
      ++ toString left ++ " bytes left"))
  else readBytes declared

def readEntry : Decoder WorkspaceEntry := do
  let key ← readKey
  let declared ← readU32
  let value ← readValue declared.toNat
  pure ⟨key, value⟩

/-- A read done `count` times. -/
def readMany (p : Decoder α) : (count : Nat) → Decoder (List α)
  | 0 => pure []
  | count + 1 => do
    let x ← p
    let xs ← readMany p count
    pure (x :: xs)

def readEntries (count : UInt32) : Decoder (List WorkspaceEntry) :=
  if count > maxEntryCount then
    .throw (.malformedBody ("workspace entries: count " ++ toString count.toNat ++ " > "
      ++ toString maxEntryCount.toNat))
  else do
    let left ← bytesRemaining
    let floor := count.toNat * entryFloorBytes
    if left < floor then
      .throw (.malformedBody ("workspace entries: " ++ toString count.toNat
        ++ " entries need at least " ++ toString floor ++ " bytes"))
    else readMany readEntry count.toNat

/-- `value` once nothing is left to read, or a fault under `hint`. -/
def expectEnd (hint : String) (value : α) : Decoder α := do
  let left ← bytesRemaining
  if left ≠ 0 then .throw (.malformedBody hint) else pure value

/-! ## Snapshots -/

/-- The writes of `encode_snapshot`. -/
def putSnapshot (state : HostWorkspaceState) : Put := do
  putU32 (saturatingU32 state.sortedEntries.length)
  state.sortedEntries.forM putEntry

def encodeSnapshot (state : HostWorkspaceState) : List UInt8 :=
  ((putSnapshot state).run ByteWriter.new).2.intoVec

/-- The reads of `decode_snapshot`. -/
def readSnapshot : Decoder HostWorkspaceState := do
  let count ← readU32
  let entries ← readEntries count
  expectEnd "workspace snapshot: trailing bytes" (.fromEntries entries)

def decodeSnapshot (data : List UInt8) : Outcome WireError HostWorkspaceState := do
  let r ← readSnapshot.run data 0
  pure r.1

/-! ## Diffs -/

/-- The writes of `encode_diff`. -/
def putDiff (diff : WorkspaceStateDiff) : Put := do
  putU32 (saturatingU32 diff.sets.length)
  diff.sets.forM putEntry
  putU32 (saturatingU32 diff.deletes.length)
  diff.deletes.forM putKey

def encodeDiff (diff : WorkspaceStateDiff) : List UInt8 :=
  ((putDiff diff).run ByteWriter.new).2.intoVec

/-- The deletes of `decode_diff`. -/
def readDeletes (count : UInt32) : Decoder (List WorkspaceKey) :=
  if count > maxEntryCount then
    .throw (.malformedBody ("workspace diff: delete count " ++ toString count.toNat ++ " > "
      ++ toString maxEntryCount.toNat))
  else do
    let left ← bytesRemaining
    let floor := count.toNat * WorkspaceKey.encodedSize
    if left < floor then
      .throw (.malformedBody ("workspace diff: " ++ toString count.toNat ++ " deletes need "
        ++ toString floor ++ " bytes"))
    else readMany readKey count.toNat

/-- The reads of `decode_diff`. -/
def readDiff : Decoder WorkspaceStateDiff := do
  let setCount ← readU32
  let sets ← readEntries setCount
  let deleteCount ← readU32
  let deletes ← readDeletes deleteCount
  expectEnd "workspace diff: trailing bytes" ⟨sets, deletes⟩

def decodeDiff (data : List UInt8) : Outcome WireError WorkspaceStateDiff := do
  let r ← readDiff.run data 0
  pure r.1

end SlopDesk.Document
