/-
SlopDesk.Document.Mirror — the mirror of a document, what keeps it and what reads it.
-/
import SlopDesk.Base.Runs
import SlopDesk.Document.CodecTheorems

/-! # A client's replica of the document
(`slopdesk-wire/src/document/mirror.rs`).

Three layers, read `pending`, then `entries`, then `fastPath`: the patches
of intents the host has not answered, host truth, and what the panes' own
channels pushed. Only `apply` writes host truth. State numbers are `Int`:
they are compared and copied, nothing more. What the intent applier makes
of a document comes in as `proposed`, the cells it would change.
-/

namespace SlopDesk.Document

open SlopDesk.Base
open SlopDesk.Wire (RawUuid)

inductive ApplyOutcome where
  | applied (stateNum : Int)
  | ignored
  | needsResubscribe
  | dropped
  | reset
  deriving DecidableEq, Repr

structure PendingPatch where
  intentId : RawUuid
  sets : BTreeMap WorkspaceKey (List UInt8)
  deletes : BTreeSet WorkspaceKey
  issuedAt : Float
  retireAtFrame : Option UInt64

/-- A patch laid over a document, as `resolved` lays it. -/
def PendingPatch.overlay (patch : PendingPatch) (out : HostWorkspaceState) : HostWorkspaceState :=
  let set := patch.sets.toList.foldl (fun out e => out.set e.1 e.2) out
  patch.deletes.toList.foldl (fun out key => (out.setOrClear key none).2) set

structure WorkspaceMirror where
  epoch : Option RawUuid
  stateNum : Int
  entries : HostWorkspaceState
  fastPath : BTreeMap WorkspaceKey (List UInt8)
  pending : List PendingPatch
  framesApplied : UInt64

/-- `PANE_KIND`. -/
def paneKind : UInt8 := 3

namespace WorkspaceMirror

def new : WorkspaceMirror where
  epoch := none
  stateNum := 0
  entries := .new
  fastPath := ∅
  pending := []
  framesApplied := 0

def knownStateNum (m : WorkspaceMirror) : Int := if m.epoch.isSome then m.stateNum else 0

/-! ## Frames -/

def retireFastPath (m : WorkspaceMirror) (supplied : List WorkspaceKey) : WorkspaceMirror :=
  if m.fastPath.isEmpty then m
  else { m with fastPath := supplied.foldl (fun overlay key => overlay.erase key) m.fastPath }

def noteDocumentFrame (m : WorkspaceMirror) : WorkspaceMirror :=
  let watermark := m.framesApplied + 1
  { m with
    framesApplied := watermark
    pending := m.pending.filter fun patch =>
      match patch.retireAtFrame with
      | none => true
      | some frame => watermark < frame }

def applySnapshot (m : WorkspaceMirror) (epoch : RawUuid) (newStateNum : Int)
    (payload : List UInt8) : ApplyOutcome × WorkspaceMirror :=
  match decodeSnapshot payload with
  | .ok decoded =>
    let m := { m with entries := decoded, epoch := some epoch, stateNum := newStateNum }
    (.applied newStateNum, (m.retireFastPath decoded.keys).noteDocumentFrame)
  | _ => (.dropped, m)

def applyDiff (m : WorkspaceMirror) (epoch : RawUuid) (base new : Int) (payload : List UInt8) :
    ApplyOutcome × WorkspaceMirror :=
  if m.epoch ≠ some epoch then (.needsResubscribe, m)
  else if new ≤ m.stateNum then (.ignored, m)
  else if base ≠ m.stateNum then (.needsResubscribe, m)
  else
    match decodeDiff payload with
    | .ok diff =>
      let supplied := diff.sets.map WorkspaceEntry.key ++ diff.deletes
      let m := { m with entries := m.entries.apply diff, stateNum := new }
      (.applied new, (m.retireFastPath supplied).noteDocumentFrame)
    | _ => (.dropped, m)

def applyReset (m : WorkspaceMirror) (epoch : RawUuid) : ApplyOutcome × WorkspaceMirror :=
  (.reset, { m with entries := .new, epoch := some epoch, stateNum := 0, pending := [] })

def apply (m : WorkspaceMirror) (kind : UInt8) (epoch : RawUuid) (baseStateNum newStateNum : Int)
    (payload : List UInt8) : ApplyOutcome × WorkspaceMirror :=
  match kind with
  | 0 => m.applySnapshot epoch newStateNum payload
  | 1 => m.applyDiff epoch baseStateNum newStateNum payload
  | 4 => m.applyReset epoch
  | _ => (.dropped, m)

/-! ## The fast path -/

/-- `write_fast_path`: whether the overlay moved, and the mirror after. -/
def writeFastPath (m : WorkspaceMirror) (key : WorkspaceKey) (value : Option (List UInt8)) :
    Bool × WorkspaceMirror :=
  if (m.entries.get key).isSome then (false, m)
  else
    match value with
    | some bytes =>
      if m.fastPath[key]? = some bytes then (false, m)
      else (true, { m with fastPath := m.fastPath.insert key bytes })
    | none => (m.fastPath.contains key, { m with fastPath := m.fastPath.erase key })

def clearFastPath (m : WorkspaceMirror) (paneId : RawUuid) : WorkspaceMirror :=
  { m with
    fastPath := m.fastPath.filter fun key _ => !(key.kind = paneKind ∧ key.objectId = paneId) }

/-! ## Reading -/

/-- The loop of `value` over the patches, newest first. -/
def patchedValue (key : WorkspaceKey) : List PendingPatch → Option (Option (List UInt8))
  | [] => none
  | patch :: older =>
    match patch.sets[key]? with
    | some value => some (some value)
    | none => if patch.deletes.contains key then some none else patchedValue key older

def value (m : WorkspaceMirror) (key : WorkspaceKey) : Option (List UInt8) :=
  match patchedValue key m.pending.reverse with
  | some answer => answer
  | none => (m.entries.get key).or m.fastPath[key]?

/-- The overlay under host truth, as `resolved` lays it. -/
def underlaid (m : WorkspaceMirror) : HostWorkspaceState :=
  m.fastPath.toList.foldl
    (fun out e => if (out.get e.1).isNone then out.set e.1 e.2 else out) m.entries

def resolved (m : WorkspaceMirror) : HostWorkspaceState :=
  m.pending.foldl (fun out patch => patch.overlay out) m.underlaid

/-! ## Pending -/

/-- `stage_intent`: `proposed` is what the applier would change of the
document as resolved, nothing when it would refuse. -/
def stageIntent (m : WorkspaceMirror) (proposed : HostWorkspaceState → Option WorkspaceStateDiff)
    (intentId : RawUuid) (issuedAt : Float) : Bool × WorkspaceMirror :=
  match proposed m.resolved with
  | none => (false, m)
  | some diff =>
    let patch : PendingPatch := {
      intentId
      sets := diff.sets.foldl (fun sets entry => sets.insert entry.key entry.value) ∅
      deletes := .ofList diff.deletes
      issuedAt
      retireAtFrame := none }
    (true, { m with pending := m.pending.filter (fun p => p.intentId ≠ intentId) ++ [patch] })

/-- The frame after which a patch answered now is superseded. -/
def retireFrame (m : WorkspaceMirror) : UInt64 :=
  if m.framesApplied = 0xFFFFFFFFFFFFFFFF then m.framesApplied else m.framesApplied + 1

/-- `note_intent_result`: the first patch of that intent goes, or is to
retire. -/
def noteIntentResult (m : WorkspaceMirror) (intentId : RawUuid) (applied : Bool) :
    Bool × WorkspaceMirror :=
  match m.pending.findIdx? fun patch => patch.intentId = intentId with
  | none => (false, m)
  | some index =>
    if applied then
      (true, { m with pending := m.pending.modify index fun patch =>
        { patch with retireAtFrame := some m.retireFrame } })
    else (true, { m with pending := m.pending.eraseIdx index })

def expirePending (m : WorkspaceMirror) (now timeout : Float) : Bool × WorkspaceMirror :=
  let kept := m.pending.filter fun patch =>
    patch.retireAtFrame.isSome || now - patch.issuedAt < timeout
  (kept.length ≠ m.pending.length, { m with pending := kept })

def dropPending (m : WorkspaceMirror) (intentId : RawUuid) : Bool × WorkspaceMirror :=
  let kept := m.pending.filter fun patch => patch.intentId ≠ intentId
  (kept.length ≠ m.pending.length, { m with pending := kept })

def forget (_ : WorkspaceMirror) : WorkspaceMirror := new

end WorkspaceMirror

end SlopDesk.Document

/-! # Whatever a client's replica says it
holds, the host's document was.

`apply_cases` reads off what a frame can do to a replica. A `History` lists
the documents of each epoch, and `Sent` is a frame made from it. A replica
that is sent nothing else holds, in every order of them, the document its
epoch and number name.
-/

namespace SlopDesk.Document

open SlopDesk.Base
open SlopDesk.Wire (RawUuid)

/-- Answers under which nothing was folded in. -/
def ApplyOutcome.Refused : ApplyOutcome → Prop
  | .ignored | .needsResubscribe | .dropped => True
  | _ => False

namespace WorkspaceMirror

variable (m : WorkspaceMirror)
variable (supplied : List WorkspaceKey)

/-! ## §1 What a frame does -/

@[simp] theorem entries_retireFastPath : (m.retireFastPath supplied).entries = m.entries := by
  unfold retireFastPath
  split <;> rfl

@[simp] theorem epoch_retireFastPath : (m.retireFastPath supplied).epoch = m.epoch := by
  unfold retireFastPath
  split <;> rfl

@[simp] theorem stateNum_retireFastPath : (m.retireFastPath supplied).stateNum = m.stateNum := by
  unfold retireFastPath
  split <;> rfl

@[simp] theorem entries_noteDocumentFrame : m.noteDocumentFrame.entries = m.entries := rfl
@[simp] theorem epoch_noteDocumentFrame : m.noteDocumentFrame.epoch = m.epoch := rfl
@[simp] theorem stateNum_noteDocumentFrame : m.noteDocumentFrame.stateNum = m.stateNum := rfl

/-- Host truth as a frame leaves it: number, epoch and entries. -/
structure Holds (m : WorkspaceMirror) (epoch : RawUuid) (stateNum : Int)
    (entries : HostWorkspaceState) : Prop where
  epoch : m.epoch = some epoch
  stateNum : m.stateNum = stateNum
  entries : m.entries = entries

theorem apply_cases (kind : UInt8) (epoch : RawUuid) (base new : Int) (payload : List UInt8) :
    (kind = 0 ∧ ∃ decoded, decodeSnapshot payload = .ok decoded ∧
      (m.apply kind epoch base new payload).1 = .applied new ∧
      Holds (m.apply kind epoch base new payload).2 epoch new decoded) ∨
    (kind = 1 ∧ m.epoch = some epoch ∧ m.stateNum < new ∧ base = m.stateNum ∧
      ∃ diff, decodeDiff payload = .ok diff ∧
      (m.apply kind epoch base new payload).1 = .applied new ∧
      Holds (m.apply kind epoch base new payload).2 epoch new (m.entries.apply diff)) ∨
    (kind = 4 ∧ (m.apply kind epoch base new payload).1 = .reset ∧
      Holds (m.apply kind epoch base new payload).2 epoch 0 .new) ∨
    ((m.apply kind epoch base new payload).1.Refused ∧
      (m.apply kind epoch base new payload).2 = m) := by
  unfold apply
  split
  case h_1 =>
    unfold applySnapshot
    cases hdecode : decodeSnapshot payload with
    | ok decoded => exact .inl ⟨rfl, decoded, rfl, rfl, by simp, by simp, by simp⟩
    | fault e => exact .inr (.inr (.inr ⟨trivial, rfl⟩))
    | panicked => exact .inr (.inr (.inr ⟨trivial, rfl⟩))
  case h_2 =>
    unfold applyDiff
    split
    case isTrue => exact .inr (.inr (.inr ⟨trivial, rfl⟩))
    case isFalse hepoch =>
      split
      case isTrue => exact .inr (.inr (.inr ⟨trivial, rfl⟩))
      case isFalse hpast =>
        split
        case isTrue => exact .inr (.inr (.inr ⟨trivial, rfl⟩))
        case isFalse hbase =>
          have hheld : m.epoch = some epoch := not_not.mp hepoch
          cases hdecode : decodeDiff payload with
          | ok diff =>
            exact .inr (.inl ⟨rfl, hheld, not_le.mp hpast, not_not.mp hbase, diff, rfl, rfl,
              by simp [hheld], by simp, by simp⟩)
          | fault e => exact .inr (.inr (.inr ⟨trivial, rfl⟩))
          | panicked => exact .inr (.inr (.inr ⟨trivial, rfl⟩))
  case h_3 => exact .inr (.inr (.inl ⟨rfl, rfl, rfl, rfl, rfl⟩))
  case h_4 => exact .inr (.inr (.inr ⟨trivial, rfl⟩))

theorem apply_refused (kind : UInt8) (epoch : RawUuid) (base new : Int) (payload : List UInt8)
    (h : (m.apply kind epoch base new payload).1.Refused) :
    (m.apply kind epoch base new payload).2 = m := by
  rcases m.apply_cases kind epoch base new payload with
    ⟨_, _, _, houtcome, _⟩ | ⟨_, _, _, _, _, _, houtcome, _⟩ | ⟨_, houtcome, _⟩ | ⟨_, hsame⟩
  · simp [houtcome, ApplyOutcome.Refused] at h
  · simp [houtcome, ApplyOutcome.Refused] at h
  · simp [houtcome, ApplyOutcome.Refused] at h
  · exact hsame

end WorkspaceMirror

/-! ## §2 What the host sends -/

/-- The documents of each epoch, numbered from 1. -/
abbrev History := RawUuid → List HostWorkspaceState

/-- The document a number names; 0 names the one nobody was told of. -/
def History.document (h : History) (epoch : RawUuid) (n : Int) : Option HostWorkspaceState :=
  if n = 0 then some .new else if 0 < n then (h epoch)[n.toNat - 1]? else none

/-- The fields of a document frame. -/
structure DocumentFrame where
  kind : UInt8
  epoch : RawUuid
  baseStateNum : Int
  newStateNum : Int
  payload : List UInt8

/-- A frame made from the documents of an epoch, as `send_document` fills it
in. -/
inductive DocumentFrame.Sent (h : History) : DocumentFrame → Prop where
  | snapshot (epoch : RawUuid) (n : Int) (doc : HostWorkspaceState) (numbered : 0 < n)
      (held : h.document epoch n = some doc) : Sent h ⟨0, epoch, 0, n, encodeSnapshot doc⟩
  | diff (epoch : RawUuid) (base n : Int) (old doc : HostWorkspaceState)
      (based : h.document epoch base = some old) (held : h.document epoch n = some doc) :
      Sent h ⟨1, epoch, base, n, encodeDiff (doc.diffFrom old)⟩
  | reset (epoch : RawUuid) : Sent h ⟨4, epoch, 0, 0, []⟩

/-! ## §3 A replica and its host -/

/-- What can happen to a replica: a frame of the host's, or a call of the
client's own. -/
inductive MirrorOp (h : History) where
  | deliver (frame : DocumentFrame) (sent : frame.Sent h)
  | writeFastPath (key : WorkspaceKey) (value : Option (List UInt8))
  | clearFastPath (paneId : RawUuid)
  | stageIntent (proposed : HostWorkspaceState → Option WorkspaceStateDiff) (intentId : RawUuid)
      (issuedAt : Float)
  | noteIntentResult (intentId : RawUuid) (applied : Bool)
  | expirePending (now timeout : Float)
  | dropPending (intentId : RawUuid)
  | forget

namespace WorkspaceMirror

variable {h : History}
variable {m : WorkspaceMirror}

/-- The replica after one of them. -/
def step (m : WorkspaceMirror) : MirrorOp h → WorkspaceMirror
  | .deliver f _ => (m.apply f.kind f.epoch f.baseStateNum f.newStateNum f.payload).2
  | .writeFastPath key value => (m.writeFastPath key value).2
  | .clearFastPath paneId => m.clearFastPath paneId
  | .stageIntent proposed intentId issuedAt => (m.stageIntent proposed intentId issuedAt).2
  | .noteIntentResult intentId applied => (m.noteIntentResult intentId applied).2
  | .expirePending now timeout => (m.expirePending now timeout).2
  | .dropPending intentId => (m.dropPending intentId).2
  | .forget => m.forget

theorem step_local (m : WorkspaceMirror) (op : MirrorOp h) :
    (∃ frame sent, op = .deliver frame sent) ∨ op = .forget ∨
    ((m.step op).epoch = m.epoch ∧ (m.step op).stateNum = m.stateNum ∧
      (m.step op).entries = m.entries) := by
  cases op with
  | deliver frame sent => exact .inl ⟨frame, sent, rfl⟩
  | forget => exact .inr (.inl rfl)
  | writeFastPath key value =>
    refine .inr (.inr ?_)
    simp only [step, writeFastPath]
    split
    case isTrue => exact ⟨rfl, rfl, rfl⟩
    case isFalse =>
      cases value with
      | none => exact ⟨rfl, rfl, rfl⟩
      | some bytes => dsimp only; split <;> exact ⟨rfl, rfl, rfl⟩
  | clearFastPath paneId => exact .inr (.inr ⟨rfl, rfl, rfl⟩)
  | stageIntent proposed intentId issuedAt =>
    grind [step, stageIntent]
  | noteIntentResult intentId applied =>
    grind [step, noteIntentResult]
  | expirePending now timeout => exact .inr (.inr ⟨rfl, rfl, rfl⟩)
  | dropPending intentId => exact .inr (.inr ⟨rfl, rfl, rfl⟩)

/-- A replica of `h`: what it holds is the document its number names. -/
def Replicates (h : History) (m : WorkspaceMirror) : Prop :=
  ∀ epoch, m.epoch = some epoch → h.document epoch m.stateNum = some m.entries

theorem Holds.replicates {epoch : RawUuid} {n : Int}
    {doc : HostWorkspaceState} (hholds : m.Holds epoch n doc) (hdoc : h.document epoch n = some doc) :
    m.Replicates h := by
  intro epoch' hepoch'
  obtain rfl := Option.some.inj (hholds.epoch.symm.trans hepoch')
  rw [hholds.stateNum, hholds.entries]
  exact hdoc

theorem Replicates.deliver (hm : m.Replicates h) {f : DocumentFrame} (hsent : f.Sent h) :
    (m.apply f.kind f.epoch f.baseStateNum f.newStateNum f.payload).2.Replicates h := by
  cases hsent with
  | snapshot epoch n doc _ hheld =>
    rcases m.apply_cases 0 epoch 0 n (encodeSnapshot doc) with
      ⟨_, decoded, hdecode, _, hholds⟩ | ⟨hkind, _⟩ | ⟨hkind, _⟩ | ⟨_, hsame⟩
    · exact hholds.replicates (eq_of_decode_snapshot hdecode ▸ hheld)
    · contradiction
    · contradiction
    · rw [hsame]
      exact hm
  | diff epoch base n old doc hbased hheld =>
    rcases m.apply_cases 1 epoch base n (encodeDiff (doc.diffFrom old)) with
      ⟨hkind, _⟩ | ⟨_, hepoch, _, hbase, decoded, hdecode, _, hholds⟩ | ⟨hkind, _⟩ | ⟨_, hsame⟩
    · contradiction
    · -- the base is what the replica holds, so the diff lands on its target
      have hold : m.entries = old := by
        rw [hbase] at hbased
        exact Option.some.inj ((hm epoch hepoch).symm.trans hbased)
      rw [eq_of_decode_diff hdecode, hold, HostWorkspaceState.apply_diffFrom] at hholds
      exact hholds.replicates hheld
    · contradiction
    · rw [hsame]
      exact hm
  | reset epoch =>
    rcases m.apply_cases 4 epoch 0 0 [] with
      ⟨hkind, _⟩ | ⟨hkind, _⟩ | ⟨_, _, hholds⟩ | ⟨_, hsame⟩
    · contradiction
    · contradiction
    · exact hholds.replicates rfl
    · rw [hsame]
      exact hm

theorem Replicates.step (hm : m.Replicates h) (op : MirrorOp h) : (m.step op).Replicates h := by
  rcases m.step_local op with ⟨f, hsent, rfl⟩ | rfl | ⟨hepoch, hnum, hentries⟩
  · exact hm.deliver hsent
  · intro epoch hepoch
    contradiction
  · intro epoch hheld
    rw [hnum, hentries]
    exact hm epoch (hepoch ▸ hheld)

theorem goes_back {op : MirrorOp h} {epoch : RawUuid} (hafter : (m.step op).epoch = some epoch)
    (hback : (m.step op).stateNum < m.stateNum) :
    ∃ f sent, op = .deliver f sent ∧ f.epoch = epoch ∧ (f.kind = 0 ∨ f.kind = 4) := by
  rcases m.step_local op with ⟨f, hsent, rfl⟩ | rfl | ⟨_, hnum, _⟩
  · refine ⟨f, hsent, rfl, ?_⟩
    change (m.apply f.kind f.epoch f.baseStateNum f.newStateNum f.payload).2.stateNum < _ at hback
    rcases m.apply_cases f.kind f.epoch f.baseStateNum f.newStateNum f.payload with
      ⟨hkind, _, _, _, hholds⟩ | ⟨_, _, hnew, _, _, _, _, hholds⟩ | ⟨hkind, _, hholds⟩ | ⟨_, hsame⟩
    · exact ⟨Option.some.inj (hholds.epoch.symm.trans hafter), .inl hkind⟩
    · rw [hholds.stateNum] at hback
      omega
    · exact ⟨Option.some.inj (hholds.epoch.symm.trans hafter), .inr hkind⟩
    · rw [hsame] at hback
      omega
  · contradiction
  · omega

/-- For every history, and every order, duplication and loss of the frames
made from it, with the client's own calls between them. -/
theorem converges (h : History) (ops : List (MirrorOp h)) :
    let m := run step new ops
    (∀ epoch, m.epoch = some epoch → h.document epoch m.stateNum = some m.entries) ∧
    (∀ kind epoch base n payload, (m.apply kind epoch base n payload).1.Refused →
      (m.apply kind epoch base n payload).2 = m) ∧
    (∀ (op : MirrorOp h) epoch, m.epoch = some epoch → (m.step op).epoch = some epoch →
      (m.step op).stateNum < m.stateNum →
      ∃ f sent, op = .deliver f sent ∧ f.epoch = epoch ∧ (f.kind = 0 ∨ f.kind = 4)) := by
  intro m
  have hreplicates : m.Replicates h :=
    run_invariant (Replicates h) (fun _ op hm => hm.step op) (fun _ hnone => by contradiction) ops
  exact ⟨hreplicates, m.apply_refused, fun _ _ _ hafter hback =>
    goes_back hafter hback⟩

end WorkspaceMirror

end SlopDesk.Document

/-! # One cell read through a mirror's layers is
that cell of the document they fold into.

`value` scans the patches newest first and stops at the first hit; `resolved`
lays them over the document oldest first. §1 reads a cell of each layer, §2
of the patches laid one over the other, and §3 runs a mirror. The two agree
because no patch both sets and deletes a cell, which is what a diff between
two projections of the topology is.
-/

namespace SlopDesk.Document

open SlopDesk.Base
open SlopDesk.Wire (RawUuid)

/-! ## §1 One cell of a layer -/

namespace HostWorkspaceState

variable (s : HostWorkspaceState)

@[simp] theorem get_set_self (key : WorkspaceKey) (value : List UInt8) :
    (s.set key value).get key = some value := by
  rw [get_set, if_pos rfl]

theorem get_foldl_set (list : List (WorkspaceKey × List UInt8)) (key : WorkspaceKey) :
    (list.foldl (fun out e => out.set e.1 e.2) s).get key = (BTreeMap.assigned list key).or (s.get key) := by
  induction list using List.reverseRecOn with
  | nil => simp [BTreeMap.assigned]
  | append_singleton list e ih =>
    rw [List.foldl_append, List.foldl_cons, List.foldl_nil, get_set, ih, BTreeMap.assigned_append]
    by_cases h : key = e.1
    · simp [h]
    · simp [h]

theorem get_foldl_clear (keys : List WorkspaceKey) (key : WorkspaceKey) :
    (keys.foldl (fun out key => (out.setOrClear key none).2) s).get key
      = if key ∈ keys then none else s.get key := by
  induction keys generalizing s with
  | nil => simp
  | cons k keys ih =>
    have hclear : (s.setOrClear k none).2.get key = if key = k then none else s.get key :=
      BTreeMap.lookup_erase s.entries k key
    rw [List.foldl_cons, ih, hclear]
    by_cases h : key = k
    · simp [h]
    · simp [h]

theorem get_foldl_underlay (list : List (WorkspaceKey × List UInt8)) (key : WorkspaceKey) :
    (list.foldl (fun out e => if (out.get e.1).isNone then out.set e.1 e.2 else out) s).get key
      = (s.get key).or ((list.find? fun e => e.1 = key).map Prod.snd) := by
  induction list generalizing s with
  | nil => simp
  | cons e list ih =>
    rw [List.foldl_cons, ih]
    by_cases hkey : e.1 = key
    case pos =>
      subst hkey
      cases hget : s.get e.1 with
      | none => simp
      | some value => simp [hget]
    case neg =>
      have hother : (if (s.get e.1).isNone then s.set e.1 e.2 else s).get key = s.get key := by
        split
        case isTrue => rw [get_set, if_neg (Ne.symm hkey)]
        case isFalse => rfl
      rw [hother]
      simp [hkey]

end HostWorkspaceState

theorem find_toList (m : BTreeMap WorkspaceKey (List UInt8)) (key : WorkspaceKey) :
    (m.toList.find? fun e => e.1 = key).map Prod.snd = m[key]? := by
  cases hfind : m.toList.find? fun e => e.1 = key with
  | some e =>
    have hkey : e.1 = key := by simpa using List.find?_some hfind
    have hmem := BTreeMap.mem_toList.mp (List.mem_of_find?_eq_some hfind)
    rw [← hkey, hmem]
    rfl
  | none =>
    cases hget : m[key]? with
    | none => rfl
    | some value =>
      have hmem : (key, value) ∈ m.toList := BTreeMap.mem_toList.mpr hget
      have hne := List.find?_eq_none.mp hfind (key, value) hmem
      simp at hne

theorem assigned_toList (m : BTreeMap WorkspaceKey (List UInt8)) (key : WorkspaceKey) :
    BTreeMap.assigned m.toList key = m[key]? := by
  cases hget : m[key]? with
  | none =>
    refine BTreeMap.assigned_eq_none.mpr fun e he hkey => ?_
    rw [BTreeMap.mem_toList, hkey, hget] at he
    contradiction
  | some value =>
    refine BTreeMap.assigned_eq_some (BTreeMap.mem_toList.mpr hget) fun other hother => ?_
    have hheld : m[key]? = some other := BTreeMap.mem_toList.mp hother
    rw [hget] at hheld
    exact (Option.some.inj hheld).symm

/-! ## §2 One cell through the layers -/

theorem mem_deletes_toList (patch : PendingPatch) (key : WorkspaceKey) :
    key ∈ patch.deletes.toList ↔ patch.deletes.contains key = true := by
  rw [Std.ExtTreeSet.mem_toList, Std.ExtTreeSet.mem_iff_contains]

theorem get_overlay (patch : PendingPatch) (out : HostWorkspaceState) (key : WorkspaceKey) :
    (patch.overlay out).get key = if patch.deletes.contains key then none
      else patch.sets[key]?.or (out.get key) := by
  rw [PendingPatch.overlay, HostWorkspaceState.get_foldl_clear, HostWorkspaceState.get_foldl_set,
    assigned_toList]
  simp only [mem_deletes_toList]

/-- No cell is both set and deleted. -/
def PendingPatch.Disjoint (patch : PendingPatch) : Prop :=
  ∀ key, patch.sets[key]? ≠ none → patch.deletes.contains key = false

theorem get_foldl_overlay (patches : List PendingPatch) (out : HostWorkspaceState)
    (key : WorkspaceKey) (h : ∀ patch ∈ patches, patch.Disjoint) :
    (patches.foldl (fun out patch => patch.overlay out) out).get key
      = match WorkspaceMirror.patchedValue key patches.reverse with
        | some answer => answer
        | none => out.get key := by
  induction patches using List.reverseRecOn with
  | nil => rfl
  | append_singleton patches patch ih =>
    have hrest := ih fun p hp => h p (List.mem_append_left _ hp)
    have hpatch : patch.Disjoint := h patch (by simp)
    rw [List.foldl_append, List.foldl_cons, List.foldl_nil, get_overlay, List.reverse_append,
      List.reverse_singleton, List.singleton_append, WorkspaceMirror.patchedValue]
    cases hset : patch.sets[key]? with
    | some value =>
      have hkept := hpatch key (by simp [hset])
      simp [hkept]
    | none =>
      grind

namespace WorkspaceMirror

variable {m : WorkspaceMirror}

theorem get_underlaid (m : WorkspaceMirror) (key : WorkspaceKey) :
    m.underlaid.get key = (m.entries.get key).or m.fastPath[key]? := by
  rw [underlaid, HostWorkspaceState.get_foldl_underlay, find_toList]

/-- No standing patch both sets and deletes a cell. -/
def Layered (m : WorkspaceMirror) : Prop := ∀ patch ∈ m.pending, patch.Disjoint

theorem Layered.value_eq (h : m.Layered) (key : WorkspaceKey) : m.value key = m.resolved.get key := by
  rw [resolved, get_foldl_overlay m.pending m.underlaid key h, get_underlaid]
  rfl

/-! ## §3 Over a run -/

/-- The patch of `topology_diff`: two projections of the topology, each
written to a document of its own. -/
def topologyDiff (before after : HostWorkspaceState) : WorkspaceStateDiff := after.diffFrom before

/-- A call on a replica. What the applier makes of the resolved document
comes in as the topology it read and the one it would write, if any. -/
inductive ReplicaOp where
  | apply (kind : UInt8) (epoch : RawUuid) (baseStateNum newStateNum : Int) (payload : List UInt8)
  | writeFastPath (key : WorkspaceKey) (value : Option (List UInt8))
  | clearFastPath (paneId : RawUuid)
  | stageIntent (applier : HostWorkspaceState → Option (HostWorkspaceState × HostWorkspaceState))
      (intentId : RawUuid) (issuedAt : Float)
  | noteIntentResult (intentId : RawUuid) (applied : Bool)
  | expirePending (now timeout : Float)
  | dropPending (intentId : RawUuid)
  | forget

/-- The replica after a call. -/
def call (m : WorkspaceMirror) : ReplicaOp → WorkspaceMirror
  | .apply kind epoch base new payload => (m.apply kind epoch base new payload).2
  | .writeFastPath key value => (m.writeFastPath key value).2
  | .clearFastPath paneId => m.clearFastPath paneId
  | .stageIntent applier intentId issuedAt =>
    (m.stageIntent (fun resolved => (applier resolved).map fun p => topologyDiff p.1 p.2) intentId
      issuedAt).2
  | .noteIntentResult intentId applied => (m.noteIntentResult intentId applied).2
  | .expirePending now timeout => (m.expirePending now timeout).2
  | .dropPending intentId => (m.dropPending intentId).2
  | .forget => m.forget

/-- The patch of a diff between documents sets what one has and deletes what
it has not. -/
theorem disjoint_diff (before after : HostWorkspaceState) (intentId : RawUuid) (issuedAt : Float)
    (retireAtFrame : Option UInt64) : PendingPatch.Disjoint {
      intentId
      sets := (topologyDiff before after).sets.foldl
        (fun sets entry => sets.insert entry.key entry.value) ∅
      deletes := .ofList (topologyDiff before after).deletes
      issuedAt
      retireAtFrame } := by
  intro key hset
  rw [Ne, HostWorkspaceState.foldl_insert] at hset
  cases hassigned : HostWorkspaceState.assigned (topologyDiff before after).sets key with
  | none => simp [hassigned] at hset
  | some value =>
    have hmem := HostWorkspaceState.mem_pairs.mp (BTreeMap.mem_of_assigned hassigned)
    have hafter := (HostWorkspaceState.mem_sets_diffFrom.mp hmem).1
    rw [Std.ExtTreeSet.contains_ofList, List.contains_eq_mem, decide_eq_false_iff_not]
    intro hdeleted
    have hnone := (HostWorkspaceState.mem_deletes_diffFrom.mp hdeleted).2
    rw [hafter] at hnone
    contradiction

/-- Patches that stand after a call stood before, or answer another frame
count. -/
theorem Layered.of_pending {m' : WorkspaceMirror} (h : m.Layered)
    (hpending : ∀ patch ∈ m'.pending, ∃ old ∈ m.pending, patch.sets = old.sets ∧
      patch.deletes = old.deletes) : m'.Layered := by
  intro patch hpatch key hset
  obtain ⟨old, hold, hsets, hdeletes⟩ := hpending patch hpatch
  rw [hdeletes]
  exact h old hold key (hsets ▸ hset)

theorem Layered.of_subset {m' : WorkspaceMirror} (h : m.Layered)
    (hpending : ∀ patch ∈ m'.pending, patch ∈ m.pending) : m'.Layered :=
  fun patch hpatch => h patch (hpending patch hpatch)

theorem pending_retireFastPath (m : WorkspaceMirror) (supplied : List WorkspaceKey) :
    (m.retireFastPath supplied).pending = m.pending := by
  unfold retireFastPath
  split <;> rfl

theorem pending_apply (m : WorkspaceMirror) (kind : UInt8) (epoch : RawUuid) (base new : Int)
    (payload : List UInt8) :
    ∀ patch ∈ (m.apply kind epoch base new payload).2.pending, patch ∈ m.pending := by
  intro patch hpatch
  unfold apply at hpatch
  split at hpatch
  case h_1 =>
    unfold applySnapshot at hpatch
    split at hpatch
    case h_1 =>
      have hkept := List.mem_of_mem_filter hpatch
      rwa [pending_retireFastPath] at hkept
    case h_2 => exact hpatch
  case h_2 =>
    unfold applyDiff at hpatch
    split at hpatch
    case isTrue => exact hpatch
    case isFalse =>
      split at hpatch
      case isTrue => exact hpatch
      case isFalse =>
        split at hpatch
        case isTrue => exact hpatch
        case isFalse =>
          split at hpatch
          case h_1 =>
            have hkept := List.mem_of_mem_filter hpatch
            rwa [pending_retireFastPath] at hkept
          case h_2 => exact hpatch
  case h_3 => exact absurd hpatch List.not_mem_nil
  case h_4 => exact hpatch

theorem Layered.call (h : m.Layered) (op : ReplicaOp) : (m.call op).Layered := by
  cases op with
  | apply kind epoch base new payload => exact h.of_subset (m.pending_apply kind epoch base new payload)
  | writeFastPath key value =>
    refine h.of_subset fun patch hpatch => ?_
    simp only [WorkspaceMirror.call, writeFastPath] at hpatch
    split at hpatch
    case isTrue => exact hpatch
    case isFalse =>
      grind
  | clearFastPath paneId => exact h
  | stageIntent applier intentId issuedAt =>
    simp only [WorkspaceMirror.call, stageIntent]
    cases applier m.resolved with
    | none => exact h
    | some projections =>
      intro patch hpatch
      rcases List.mem_append.mp hpatch with hold | hnew
      · exact h patch (List.mem_of_mem_filter hold)
      · rw [List.mem_singleton.mp hnew]
        exact disjoint_diff projections.1 projections.2 intentId issuedAt none
  | noteIntentResult intentId applied =>
    refine h.of_pending fun patch hpatch => ?_
    simp only [WorkspaceMirror.call, noteIntentResult] at hpatch
    split at hpatch
    case h_1 => exact ⟨patch, hpatch, rfl, rfl⟩
    case h_2 index _ =>
      split at hpatch
      case isTrue =>
        obtain ⟨i, hi, rfl⟩ := List.mem_iff_getElem.mp hpatch
        rw [List.getElem_modify]
        have hlt : i < m.pending.length := by simpa using hi
        refine ⟨m.pending[i], List.getElem_mem hlt, ?_⟩
        split <;> exact ⟨rfl, rfl⟩
      case isFalse => exact ⟨patch, List.mem_of_mem_eraseIdx hpatch, rfl, rfl⟩
  | expirePending now timeout => exact h.of_subset fun _ hpatch => List.mem_of_mem_filter hpatch
  | dropPending intentId => exact h.of_subset fun _ hpatch => List.mem_of_mem_filter hpatch
  | forget => exact fun patch hpatch => absurd hpatch List.not_mem_nil

/-- In every mirror a run of frames, pushes, intents, results and expiries
can reach, one cell read through the layers is that cell of the document
they fold into. -/
theorem value_eq_resolved (ops : List ReplicaOp) (key : WorkspaceKey) :
    (run call new ops).value key = (run call new ops).resolved.get key :=
  (run_invariant Layered (fun _ op h => h.call op)
    (fun _ hpatch => absurd hpatch List.not_mem_nil) ops).value_eq key

end WorkspaceMirror

end SlopDesk.Document
