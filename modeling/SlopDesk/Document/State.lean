/-
SlopDesk.Document.State — the workspace document as a flat map of cells
(`slopdesk-wire/src/document/state.rs`).

A document is an ordered map from keys to bytes, in the order the wire
emits them: kind, then the object's bytes, then the field. A zero-length
value is a value; an absent key is something else.
-/
import SlopDesk.Base.BTree
import SlopDesk.Wire.Codec

namespace SlopDesk.Document

open SlopDesk.Base
open SlopDesk.Wire (RawUuid)

structure WorkspaceKey where
  kind : UInt8
  objectId : RawUuid
  field : UInt8
  deriving DecidableEq

/-- The derived `Ord`: the fields in the order they are declared. -/
def WorkspaceKey.cmp : WorkspaceKey → WorkspaceKey → Ordering :=
  compareLex (compareOn kind) (compareLex (compareOn fun key => key.objectId.bytes) (compareOn field))

instance : Ord WorkspaceKey := ⟨WorkspaceKey.cmp⟩

instance : Std.TransOrd WorkspaceKey := inferInstanceAs (Std.TransCmp (compareLex
  (compareOn WorkspaceKey.kind)
  (compareLex (compareOn fun key : WorkspaceKey => key.objectId.bytes) (compareOn WorkspaceKey.field))))

instance : Std.LawfulEqOrd WorkspaceKey where
  eq_of_compare := by
    intro a b h
    obtain ⟨hkind, hrest⟩ := compareLex_eq_eq.mp h
    obtain ⟨hobject, hfield⟩ := compareLex_eq_eq.mp hrest
    obtain ⟨kind, ⟨bytes, size⟩, field⟩ := a
    obtain ⟨kind', ⟨bytes', size'⟩, field'⟩ := b
    simp only [compareOn, Std.compare_eq_iff_eq] at hkind hobject hfield
    subst hkind hobject hfield
    rfl

structure WorkspaceEntry where
  key : WorkspaceKey
  value : List UInt8
  deriving DecidableEq

structure WorkspaceStateDiff where
  sets : List WorkspaceEntry := []
  deletes : List WorkspaceKey := []
  deriving DecidableEq

def WorkspaceStateDiff.isEmpty (d : WorkspaceStateDiff) : Bool := d.sets.isEmpty && d.deletes.isEmpty

structure HostWorkspaceState where
  entries : BTreeMap WorkspaceKey (List UInt8)

/-- The order of the pairs `canonical_order` sorts: the key, then where it
came. -/
def placedCmp : WorkspaceKey × UInt32 → WorkspaceKey × UInt32 → Ordering :=
  compareLex (compareOn Prod.fst) (compareOn Prod.snd)

def canonicalOrder (keys : List WorkspaceKey) : List UInt32 :=
  let placed := keys.zip ((List.range keys.length).map UInt32.ofNat)
  (placed.mergeSort fun a b => (placedCmp a b).isLE).map Prod.snd

namespace HostWorkspaceState

def new : HostWorkspaceState := ⟨∅⟩

/-- `from_entries`: a later entry for a key wins. -/
def fromEntries (list : List WorkspaceEntry) : HostWorkspaceState :=
  ⟨list.foldl (fun entries entry => entries.insert entry.key entry.value) ∅⟩

def get (s : HostWorkspaceState) (key : WorkspaceKey) : Option (List UInt8) := s.entries[key]?

def sortedEntries (s : HostWorkspaceState) : List WorkspaceEntry :=
  s.entries.toList.map fun e => ⟨e.1, e.2⟩

def keys (s : HostWorkspaceState) : List WorkspaceKey := s.entries.toList.map Prod.fst

def set (s : HostWorkspaceState) (key : WorkspaceKey) (value : List UInt8) : HostWorkspaceState :=
  ⟨s.entries.insert key value⟩

/-- `set_or_clear`: whether it changed anything, and the document after. -/
def setOrClear (s : HostWorkspaceState) (key : WorkspaceKey) (value : Option (List UInt8)) :
    Bool × HostWorkspaceState :=
  match value with
  | some value => if s.entries[key]? = some value then (false, s) else (true, s.set key value)
  | none => (s.entries[key]?.isSome, ⟨s.entries.erase key⟩)

def diffFrom (s base : HostWorkspaceState) : WorkspaceStateDiff where
  sets := (s.entries.toList.filter fun e => base.entries[e.1]? ≠ some e.2).map fun e => ⟨e.1, e.2⟩
  deletes := base.keys.filter fun key => ¬ s.entries.contains key

/-- `apply`: the sets land before the deletes. -/
def apply (s : HostWorkspaceState) (diff : WorkspaceStateDiff) : HostWorkspaceState :=
  let set := diff.sets.foldl (fun entries entry => entries.insert entry.key entry.value) s.entries
  ⟨diff.deletes.foldl (fun entries key => entries.erase key) set⟩

def applying (s : HostWorkspaceState) (diff : WorkspaceStateDiff) : HostWorkspaceState := s.apply diff

end HostWorkspaceState

end SlopDesk.Document
