/-
SlopDesk.Session.OutboxTheorems — the outbox preserves the stream.

What a pane has waiting is a list of entries: payloads and exit markers.
Taking a frame from that list is `pull`, which knows nothing of slots (§1);
`take_frame` computes `pull` through the slots and the payload map (§2),
and a run of producers and drain moves every byte and marker from the list
to the wire in order (§3).
-/
import SlopDesk.Session.Outbox
import SlopDesk.Wire.ReplayOrder

namespace SlopDesk.Session

open SlopDesk.Base
open SlopDesk.Mux (MuxFlowControl)
open SlopDesk.Wire (PaneOp ReplayBuffer ReplaySession WireMessage numbered numbered_append)

variable {entries : List Entry} {out : Outbound}

/-! ## §1 Frames from a list of entries -/

/-- What was appended: a payload with its control, or an exit marker. -/
inductive Entry where
  | data (queued : Queued)
  | exit (code : Int32)

/-- A place in the stream: one of its elements, or an exit marker. -/
inductive Mark (α : Type) where
  | item (x : α)
  | exit (code : Int32)
  deriving DecidableEq

/-- A payload followed by another. -/
def Queued.merge (q q' : Queued) : Queued := ⟨q.bytes ++ q'.bytes, q.control ++ q'.control⟩

@[simp] theorem Queued.merge_bytes (q q' : Queued) : (q.merge q').bytes = q.bytes ++ q'.bytes := rfl
@[simp] theorem Queued.merge_control (q q' : Queued) : (q.merge q').control = q.control ++ q'.control := rfl

theorem Queued.merge_empty (q : Queued) : q.merge {} = q := by simp [merge]

theorem Queued.merge_assoc (a b c : Queued) : (a.merge b).merge c = a.merge (b.merge c) := by
  simp [merge]

/-- The frame that ships a payload whole. -/
def Queued.ready (q : Queued) : Ready := .output q.bytes q.bytes.length q.control

/-- The following payloads that still fit beside `acc`. -/
def coalesce (cap : Nat) : (acc : Queued) → List Entry → Queued × List Entry
  | acc, .data q :: rest =>
    if acc.bytes.length + q.bytes.length > cap then (acc, .data q :: rest)
    else coalesce cap (acc.merge q) rest
  | acc, entries => (acc, entries)

/-- The next frame under a cap, and the entries it leaves. -/
def pull (cap : Nat) : List Entry → Option (Ready × List Entry)
  | [] => none
  | .exit code :: rest => some (.exit code, rest)
  | .data q :: rest =>
    if q.bytes.length > cap then
      some (.output (q.bytes.take cap) (q.bytes.take cap).length q.control,
        .data { bytes := q.bytes.drop cap } :: rest)
    else some ((coalesce cap q rest).1.ready, (coalesce cap q rest).2)

/-- The bytes and markers of the entries. -/
def entryBytes : List Entry → List (Mark UInt8)
  | [] => []
  | .data q :: rest => q.bytes.map .item ++ entryBytes rest
  | .exit code :: rest => .exit code :: entryBytes rest

/-- The control messages and markers of the entries. -/
def entryControl : List Entry → List (Mark WireMessage)
  | [] => []
  | .data q :: rest => q.control.map .item ++ entryControl rest
  | .exit code :: rest => .exit code :: entryControl rest

/-- The bytes of a frame, or its marker. -/
def Ready.bytes : Ready → List (Mark UInt8)
  | .output bytes _ _ => bytes.map .item
  | .exit code => [.exit code]

/-- The control messages of a frame, or its marker. -/
def Ready.control : Ready → List (Mark WireMessage)
  | .output _ _ control => control.map .item
  | .exit code => [.exit code]

/-- How many payload bytes a frame ships. -/
def Ready.size : Ready → Nat
  | .output bytes _ _ => bytes.length
  | .exit _ => 0

/-- How much is waiting: the entries, and the bytes in them. -/
def entryLoad : List Entry → Nat
  | [] => 0
  | .data q :: rest => q.bytes.length + 1 + entryLoad rest
  | .exit _ :: rest => 1 + entryLoad rest

@[simp] theorem entryBytes_append (a b : List Entry) :
    entryBytes (a ++ b) = entryBytes a ++ entryBytes b := by
  induction a with
  | nil => rfl
  | cons entry rest ih => cases entry <;> simp [entryBytes, ih]

@[simp] theorem entryControl_append (a b : List Entry) :
    entryControl (a ++ b) = entryControl a ++ entryControl b := by
  induction a with
  | nil => rfl
  | cons entry rest ih => cases entry <;> simp [entryControl, ih]

theorem coalesce_keeps {α : Type} (held : Queued → List α) (waits : List Entry → List α)
    (hmerge : ∀ acc q rest, held (acc.merge q) ++ waits rest = held acc ++ waits (.data q :: rest))
    (cap : Nat) (acc : Queued) (entries : List Entry) :
    held (coalesce cap acc entries).1 ++ waits (coalesce cap acc entries).2
      = held acc ++ waits entries := by
  induction entries generalizing acc with
  | nil => rfl
  | cons entry rest ih =>
    cases entry with
    | exit code => rfl
    | data q =>
      by_cases hover : acc.bytes.length + q.bytes.length > cap
      case pos => simp [coalesce, hover]
      case neg =>
        simp only [coalesce, hover, if_false]
        exact (ih (acc.merge q)).trans (hmerge acc q rest)

theorem coalesce_bytes (cap : Nat) (acc : Queued) (entries : List Entry) :
    (coalesce cap acc entries).1.bytes.map .item ++ entryBytes (coalesce cap acc entries).2
      = acc.bytes.map .item ++ entryBytes entries :=
  coalesce_keeps (fun q => q.bytes.map .item) entryBytes
    (fun acc q rest => by simp [entryBytes]) cap acc entries

theorem coalesce_control (cap : Nat) (acc : Queued) (entries : List Entry) :
    (coalesce cap acc entries).1.control.map .item ++ entryControl (coalesce cap acc entries).2
      = acc.control.map .item ++ entryControl entries :=
  coalesce_keeps (fun q => q.control.map .item) entryControl
    (fun acc q rest => by simp [entryControl]) cap acc entries

theorem coalesce_le {cap : Nat} {acc : Queued} (entries : List Entry)
    (h : acc.bytes.length ≤ cap) : (coalesce cap acc entries).1.bytes.length ≤ cap := by
  induction entries generalizing acc with
  | nil => exact h
  | cons entry rest ih =>
    cases entry with
    | exit code => exact h
    | data q =>
      by_cases hover : acc.bytes.length + q.bytes.length > cap
      case pos => simpa [coalesce, hover] using h
      case neg =>
        have hfits : (acc.merge q).bytes.length ≤ cap := by simp; omega
        simpa [coalesce, hover] using ih hfits

theorem coalesce_load (cap : Nat) (acc : Queued) (entries : List Entry) :
    entryLoad (coalesce cap acc entries).2 ≤ entryLoad entries := by
  induction entries generalizing acc with
  | nil => exact Nat.le_refl _
  | cons entry rest ih =>
    cases entry with
    | exit code => exact Nat.le_refl _
    | data q =>
      by_cases hover : acc.bytes.length + q.bytes.length > cap
      case pos => simp [coalesce, hover]
      case neg =>
        have hrest := ih (acc.merge q)
        simp only [coalesce, hover, if_false, entryLoad]
        omega

section
variable {cap : Nat} {entries rest : List Entry} {ready : Ready}

theorem pull_cases (h : pull cap entries = some (ready, rest)) :
    (∃ code, entries = .exit code :: rest ∧ ready = .exit code) ∨
    (∃ q tail, entries = .data q :: tail ∧ cap < q.bytes.length ∧
      ready = .output (q.bytes.take cap) (q.bytes.take cap).length q.control ∧
      rest = .data { bytes := q.bytes.drop cap } :: tail) ∨
    (∃ q tail, entries = .data q :: tail ∧ q.bytes.length ≤ cap ∧
      ready = (coalesce cap q tail).1.ready ∧ rest = (coalesce cap q tail).2) := by
  cases entries with
  | nil => simp [pull] at h
  | cons entry tail =>
    cases entry with
    | exit code =>
      grind [pull, Option.some.injEq, Prod.mk.injEq]
    | data q =>
      by_cases hover : q.bytes.length > cap
      case pos =>
        simp only [pull, if_pos hover, Option.some.injEq, Prod.mk.injEq] at h
        exact .inr (.inl ⟨q, tail, rfl, hover, h.1.symm, h.2.symm⟩)
      case neg =>
        simp only [pull, if_neg hover, Option.some.injEq, Prod.mk.injEq] at h
        exact .inr (.inr ⟨q, tail, rfl, Nat.le_of_not_lt hover, h.1.symm, h.2.symm⟩)

theorem pull_bytes (h : pull cap entries = some (ready, rest)) :
    entryBytes entries = ready.bytes ++ entryBytes rest := by
  rcases pull_cases h with ⟨code, rfl, rfl⟩ | ⟨q, tail, rfl, _, rfl, rfl⟩ | ⟨q, tail, rfl, _, rfl, rfl⟩
  · rfl
  · simp only [entryBytes, Ready.bytes]
    rw [← List.append_assoc, ← List.map_append, List.take_append_drop]
  · exact (coalesce_bytes cap q tail).symm

theorem pull_control (h : pull cap entries = some (ready, rest)) :
    entryControl entries = ready.control ++ entryControl rest := by
  rcases pull_cases h with ⟨code, rfl, rfl⟩ | ⟨q, tail, rfl, _, rfl, rfl⟩ | ⟨q, tail, rfl, _, rfl, rfl⟩
  · rfl
  · simp [entryControl, Ready.control]
  · exact (coalesce_control cap q tail).symm

theorem pull_size (h : pull cap entries = some (ready, rest)) : ready.size ≤ cap := by
  rcases pull_cases h with ⟨code, rfl, rfl⟩ | ⟨q, tail, rfl, _, rfl, rfl⟩ | ⟨q, tail, rfl, hq, rfl, rfl⟩
  · exact Nat.zero_le _
  · exact List.length_take_le ..
  · exact coalesce_le tail hq

theorem pull_load (hcap : 0 < cap) (h : pull cap entries = some (ready, rest)) :
    entryLoad rest < entryLoad entries := by
  rcases pull_cases h with ⟨code, rfl, rfl⟩ | ⟨q, tail, rfl, hq, rfl, rfl⟩ | ⟨q, tail, rfl, _, rfl, rfl⟩
  · simp only [entryLoad]
    omega
  · simp only [entryLoad, List.length_drop]
    omega
  · have htail := coalesce_load cap q tail
    simp only [entryLoad]
    omega

end

/-! ## §2 The queue and its payloads -/

/-- The items name consecutive slots from `slot` up to `next`, each the
payload of its entry. -/
inductive Named (payloads : BTreeMap Slot Queued) : Slot → List Item → List Entry → Slot → Prop
  | nil (slot : Slot) : Named payloads slot [] [] slot
  | chunk {slot next : Slot} {q : Queued} {items : List Item} {entries : List Entry} :
      payloads[slot]? = some q → Named payloads (slot + 1) items entries next →
      Named payloads slot (.chunk slot q.bytes.length :: items) (.data q :: entries) next
  | exit {slot next : Slot} {code : Int32} {items : List Item} {entries : List Entry} :
      Named payloads slot items entries next →
      Named payloads slot (.exit code :: items) (.exit code :: entries) next

namespace Named

variable {payloads payloads' : BTreeMap Slot Queued} {slot next : Slot} {items : List Item}
  {entries : List Entry}

section

variable (h : Named payloads slot items entries next)
include h

theorem le : slot ≤ next := by
  induction h with
  | nil => exact Nat.le_refl _
  | chunk _ _ ih => exact Nat.le_trans (Nat.le_succ _) ih
  | exit _ ih => exact ih

theorem congr (hsame : ∀ k, slot ≤ k → k < next → payloads'[k]? = payloads[k]?) :
    Named payloads' slot items entries next := by
  induction h with
  | nil slot => exact .nil slot
  | chunk hq hrest ih =>
    have hlt := hrest.le
    exact .chunk ((hsame _ (Nat.le_refl _) hlt).trans hq)
      (ih fun k hk => hsame k (Nat.le_of_succ_le hk))
  | exit _ ih => exact .exit (ih hsame)

theorem insert_next (q : Queued) : Named (payloads.insert next q) slot (items ++ [.chunk next q.bytes.length])
      (entries ++ [.data q]) (next + 1) := by
  induction h with
  | nil slot => exact .chunk (by simp) (.nil _)
  | @chunk slot next _ _ _ hq hrest ih =>
    have hlt : slot < next := hrest.le
    refine .chunk ?_ ih
    rw [BTreeMap.lookup_insert, if_neg (Nat.ne_of_lt hlt), hq]
  | exit _ ih => exact .exit ih

theorem append_exit (code : Int32) :
    Named payloads slot (items ++ [.exit code]) (entries ++ [.exit code]) next := by
  induction h with
  | nil slot => exact .exit (.nil _)
  | chunk hq _ ih => exact .chunk hq ih
  | exit _ ih => exact .exit ih

theorem erase {k : Slot} (hk : k < slot) : Named (payloads.erase k) slot items entries next := by
  refine h.congr fun k' hk' _ => ?_
  rw [BTreeMap.lookup_erase, if_neg (Nat.ne_of_gt (Nat.lt_of_lt_of_le hk hk'))]

end

/-- The absorbing loop and the merging loop together are `coalesce`: the
run absorbed is gathered, and the rest is named on from where it ends. -/
theorem absorb (cap : Nat) {byteCount : Nat} (acc : Queued) (slots : Nat)
    (h : Named payloads slot items entries next) (hacc : acc.bytes.length = byteCount) :
    ∃ count tail payloads' items' rest,
      Session.absorb cap byteCount slots items
        = ((acc.merge tail).bytes.length, slots + count, items') ∧
      gather payloads slot count = (tail, payloads') ∧
      coalesce cap acc entries = (acc.merge tail, rest) ∧
      Named payloads' (slot + count) items' rest next := by
  induction items generalizing payloads slot entries byteCount slots acc with
  | nil =>
    cases h
    exact ⟨0, {}, payloads, [], [], by simp [Session.absorb, hacc], rfl,
      by rw [acc.merge_empty]; rfl, .nil _⟩
  | cons item items ih =>
    cases h with
    | @exit _ _ code _ rest hrest =>
      exact ⟨0, {}, payloads, .exit code :: items, .exit code :: rest,
        by simp [Session.absorb, hacc], rfl, by rw [acc.merge_empty]; rfl, .exit hrest⟩
    | @chunk _ _ q _ rest hq hrest =>
      by_cases hover : byteCount + q.bytes.length > cap
      case pos =>
        exact ⟨0, {}, payloads, .chunk slot q.bytes.length :: items, .data q :: rest,
          by simp [Session.absorb, hover, hacc], rfl,
          by simp [coalesce, hacc, hover, acc.merge_empty], .chunk hq hrest⟩
      case neg =>
        have hmerged : (acc.merge q).bytes.length = byteCount + q.bytes.length := by simp [hacc]
        obtain ⟨count, tail, payloads', items', rest', habsorb, hgather, hcoalesce, hnamed⟩ :=
          ih (acc.merge q) (slots + 1) (hrest.erase (Nat.lt_succ_self slot)) hmerged
        have hslots : slots + 1 + count = slots + (count + 1) := by omega
        have hslot : slot + 1 + count = slot + (count + 1) := Nat.add_right_comm slot 1 count
        refine ⟨count + 1, q.merge tail, payloads', items', rest', ?_, ?_, ?_, hslot ▸ hnamed⟩
        · rw [Session.absorb, if_neg hover, habsorb, Queued.merge_assoc, hslots]
        · simp only [gather, hq, hgather]
          rfl
        · rw [coalesce, hacc, if_neg hover, hcoalesce, Queued.merge_assoc]

end Named

/-- The queue and its map hold these entries. -/
def Outbound.Holds (out : Outbound) (entries : List Entry) : Prop :=
  ∃ slot, Named out.payloads slot out.outbox.queue entries out.outbox.nextSlot

theorem Outbound.Holds.takeFrame (h : out.Holds entries) (cap : Nat) :
    (out.outbox.queue = [] ∧ out.takeFrame cap = none) ∨
    ∃ ready out' rest, out.takeFrame cap = some (ready, out') ∧
      pull (max cap 1) entries = some (ready, rest) ∧ out'.Holds rest := by
  obtain ⟨slot, h⟩ := h
  cases hqueue : out.outbox.queue with
  | nil =>
    exact .inl ⟨rfl, by simp [Outbound.takeFrame, Outbox.take, hqueue]⟩
  | cons item items =>
    rw [hqueue] at h
    right
    cases h with
    | @exit _ _ code _ rest hrest =>
      have htake : out.outbox.take cap = some (.exit code, { out.outbox with queue := items }) := by
        simp [Outbox.take, hqueue]
      exact ⟨.exit code, _, rest, by rw [Outbound.takeFrame, htake], rfl, slot, hrest⟩
    | @chunk _ _ q _ rest hq hrest =>
      by_cases hover : q.bytes.length > max cap 1
      case pos =>
        -- a split: the remainder goes back under the head's slot
        have htake : out.outbox.take cap = some (.output slot 1 (max cap 1) true,
            { out.outbox with queue := .chunk slot (q.bytes.length - max cap 1) :: items }) := by
          simp only [Outbox.take, hqueue, if_pos hover]
        have hhead : Named (out.payloads.insert slot { bytes := q.bytes.drop (max cap 1) }) slot
            (.chunk slot (q.bytes.length - max cap 1) :: items)
            (.data { bytes := q.bytes.drop (max cap 1) } :: rest) out.outbox.nextSlot := by
          rw [← List.length_drop]
          refine .chunk (q := ⟨q.bytes.drop (max cap 1), []⟩) (by simp) (hrest.congr ?_)
          intro k hk _
          rw [BTreeMap.lookup_insert, if_neg (Nat.ne_of_gt hk)]
        exact ⟨_, { out with
            outbox := { out.outbox with queue := .chunk slot (q.bytes.length - max cap 1) :: items }
            payloads := out.payloads.insert slot { bytes := q.bytes.drop (max cap 1) } }, _,
          by simp only [Outbound.takeFrame, htake, if_true, hq], if_pos hover, slot, hhead⟩
      case neg =>
        obtain ⟨count, tail, payloads, items', rest', habsorb, hgather, hcoalesce, hnamed⟩ :=
          (hrest.erase (Nat.lt_succ_self slot)).absorb (max cap 1) q 1 rfl
        have htake : out.outbox.take cap = some
            (.output slot (1 + count) (q.merge tail).bytes.length false,
              { out.outbox with queue := items' }) := by
          simp only [Outbox.take, hqueue, if_neg hover, habsorb]
        have hpull : pull (max cap 1) (.data q :: rest) = some ((q.merge tail).ready, rest') := by
          simp only [pull, if_neg hover, hcoalesce]
        refine ⟨_, { out with outbox := { out.outbox with queue := items' }, payloads }, _, ?_, hpull,
          _, hnamed⟩
        by_cases hone : 1 + count = 1
        case pos =>
          obtain rfl : count = 0 := by omega
          obtain ⟨rfl, rfl⟩ := hgather
          simp [Outbound.takeFrame, htake, hq, Queued.merge_empty, Queued.ready]
        case neg =>
          have hrun : gather out.payloads slot (1 + count) = (q.merge tail, payloads) := by
            rw [Nat.add_comm, gather, hq]
            simp only [hgather]
            rfl
          simp only [Outbound.takeFrame, htake, Bool.false_eq_true, if_false, if_neg hone, hrun]
          rfl

/-! ## §3 Runs -/

/-- The bytes and markers an outbox has waiting. -/
def Outbound.pending (out : Outbound) : List (Mark UInt8) :=
  out.outbox.queue.flatMap fun
    | .chunk slot _ => (out.payloads[slot]?.getD {}).bytes.map .item
    | .exit code => [.exit code]

/-- The control messages and markers an outbox has waiting. -/
def Outbound.pendingControl (out : Outbound) : List (Mark WireMessage) :=
  out.outbox.queue.flatMap fun
    | .chunk slot _ => (out.payloads[slot]?.getD {}).control.map .item
    | .exit code => [.exit code]

/-- The items of a queue, and the bytes they stand for. -/
def queueLoad : List Item → Nat
  | [] => 0
  | .chunk _ len :: rest => len + 1 + queueLoad rest
  | .exit _ :: rest => 1 + queueLoad rest

section

variable (h : out.Holds entries)
include h

theorem Outbound.Holds.pending : out.pending = entryBytes entries := by
  obtain ⟨slot, h⟩ := h
  unfold Outbound.pending
  generalize out.outbox.queue = items, out.outbox.nextSlot = next at h
  induction h with
  | nil => rfl
  | chunk hq _ ih => simp [List.flatMap_cons, ih, hq, entryBytes]
  | exit _ ih => simp [List.flatMap_cons, ih, entryBytes]

theorem Outbound.Holds.pendingControl
    : out.pendingControl = entryControl entries := by
  obtain ⟨slot, h⟩ := h
  unfold Outbound.pendingControl
  generalize out.outbox.queue = items, out.outbox.nextSlot = next at h
  induction h with
  | nil => rfl
  | chunk hq _ ih => simp [List.flatMap_cons, ih, hq, entryControl]
  | exit _ ih => simp [List.flatMap_cons, ih, entryControl]

theorem Outbound.Holds.load : queueLoad out.outbox.queue = entryLoad entries := by
  obtain ⟨slot, h⟩ := h
  generalize out.outbox.queue = items, out.outbox.nextSlot = next at h ⊢
  induction h with
  | nil => rfl
  | chunk _ _ ih => simp only [queueLoad, entryLoad, ih]
  | exit _ ih => simp only [queueLoad, entryLoad, ih]

theorem Outbound.Holds.appendChunk (bytes : List UInt8) (control : List WireMessage) :
    (out.appendChunk bytes control).Holds (entries ++ [.data ⟨bytes, control⟩]) := by
  obtain ⟨slot, h⟩ := h
  exact ⟨slot, h.insert_next ⟨bytes, control⟩⟩

theorem Outbound.Holds.appendExit
    (code : Int32) : (out.appendExit code).Holds (entries ++ [.exit code]) := by
  obtain ⟨slot, h⟩ := h
  exact ⟨slot, h.append_exit code⟩

end

/-- The bytes and markers a step appends. -/
def OutletOp.appended : OutletOp → List (Mark UInt8)
  | .appendChunk bytes _ => bytes.map .item
  | .appendExit code => [.exit code]
  | _ => []

/-- The control messages and markers a step appends. -/
def OutletOp.appendedControl : OutletOp → List (Mark WireMessage)
  | .appendChunk _ control => control.map .item
  | .appendExit code => [.exit code]
  | _ => []

namespace Outlet

/-- The frame a step takes, beside the cap it was taken under. -/
def takes (o : Outlet) : OutletOp → List (Nat × Ready)
  | .takeFrame cap =>
    match o.inHand, o.out.takeFrame cap with
    | none, some (ready, _) => [(cap, ready)]
    | _, _ => []
  | _ => []

/-- The frames a run takes, in order. -/
def taken (mux : MuxFlowControl) : Outlet → List OutletOp → List (Nat × Ready)
  | _, [] => []
  | o, op :: ops => o.takes op ++ taken mux (o.step mux op) ops

end Outlet

/-- What was shipped, as the frame it was. -/
def Shipped.ready : Shipped → Ready
  | .output _ bytes control => .output bytes bytes.length control
  | .exit code => .exit code

/-- The data frames sent, under their numbers. -/
def Outlet.sequenced (o : Outlet) : List (Int × List UInt8) :=
  o.shipped.filterMap fun
    | .output seq bytes _ => some (seq, bytes)
    | .exit _ => none

theorem highestSeq_ack (b : ReplayBuffer) (upTo : Int) : (b.ack upTo).highestSeq = b.highestSeq := by
  unfold ReplayBuffer.ack
  dsimp only
  split
  case isTrue => rfl
  case isFalse =>
    split
    case isTrue => rfl
    case isFalse => exact (ReplayBuffer.ringOnly_retire _ _).highestSeq

theorem highestSeq_ring (mux : MuxFlowControl) (s : ReplaySession) (op : RingOp) :
    (s.paneStep mux op.toPaneOp).buffer.highestSeq = s.buffer.highestSeq := by
  cases op with
  | ack upTo => exact highestSeq_ack s.buffer upTo
  | setClientOnline online => rfl
  | captureFold => rfl
  | adoptFold index rendered =>
    simp only [RingOp.toPaneOp, ReplaySession.paneStep, ReplaySession.step]
    cases s.captured[index]? with
    | none => rfl
    | some source => exact (ReplayBuffer.ringOnly_adoptFolded mux s.buffer rendered source).highestSeq
  | composeSnapshot after rendered =>
    simp only [RingOp.toPaneOp, ReplaySession.paneStep]
    rcases ReplayBuffer.composeSnapshot_cases mux s.buffer after rendered with heq | heq
    · rw [heq]
    · rw [heq]
      exact (ReplayBuffer.ringOnly_evict _).highestSeq

/-- A frame's byte count is its payload's length. -/
def Ready.Counted : Ready → Prop
  | .output bytes byteCount _ => byteCount = bytes.length
  | .exit _ => True

theorem pull_counted {cap : Nat} {rest : List Entry} {ready : Ready}
    (h : pull cap entries = some (ready, rest)) : ready.Counted := by
  rcases pull_cases h with ⟨code, _, rfl⟩ | ⟨q, tail, _, _, rfl, _⟩ | ⟨q, tail, _, _, rfl, _⟩
  · trivial
  · rfl
  · rfl

/-- Where the stream of a run stands: `frames` taken so far, `bytes` and
`control` appended. -/
structure Outlet.Carries (first : Int) (frames : List (Nat × Ready)) (bytes : List (Mark UInt8))
    (control : List (Mark WireMessage)) (o : Outlet) : Prop where
  held : ∃ entries, o.out.Holds entries ∧
    bytes = (frames.flatMap fun f => f.2.bytes) ++ entryBytes entries ∧
    control = (frames.flatMap fun f => f.2.control) ++ entryControl entries
  shipped : o.shipped.map Shipped.ready ++ o.inHand.toList = frames.map Prod.snd
  inHand : ∀ ready, o.inHand = some ready → ready.Counted
  within : ∀ f ∈ frames, f.2.size ≤ max f.1 1
  numbered : o.sequenced = numbered first (o.sequenced.map Prod.snd)
  next : o.replay.buffer.highestSeq + 1 = first + o.sequenced.length

namespace Outlet.Carries

variable {first : Int} {frames : List (Nat × Ready)} {bytes : List (Mark UInt8)}
  {control : List (Mark WireMessage)} {o : Outlet}

section

variable (h : o.Carries first frames bytes control)
include h

theorem appendChunk (chunk : List UInt8) (rider : List WireMessage) :
    Outlet.Carries first frames (bytes ++ chunk.map .item) (control ++ rider.map .item)
      { o with out := o.out.appendChunk chunk rider } := by
  obtain ⟨entries, hholds, hbytes, hcontrol⟩ := h.held
  refine { h with held := ⟨_, hholds.appendChunk chunk rider, ?_, ?_⟩ }
  · simp [hbytes, entryBytes]
  · simp [hcontrol, entryControl]

theorem appendExit (code : Int32) :
    Outlet.Carries first frames (bytes ++ [.exit code]) (control ++ [.exit code])
      { o with out := o.out.appendExit code } := by
  obtain ⟨entries, hholds, hbytes, hcontrol⟩ := h.held
  refine { h with held := ⟨_, hholds.appendExit code, ?_, ?_⟩ }
  · simp [hbytes, entryBytes]
  · simp [hcontrol, entryControl]

theorem takeFrame (mux : MuxFlowControl) (cap : Nat) :
    (o.step mux (.takeFrame cap)).Carries first (frames ++ o.takes (.takeFrame cap)) bytes
      control := by
  obtain ⟨entries, hholds, hbytes, hcontrol⟩ := h.held
  cases hhand : o.inHand with
  | some ready => simpa [Outlet.step, Outlet.takes, hhand] using h
  | none =>
    rcases hholds.takeFrame cap with ⟨_, hnone⟩ | ⟨ready, out', rest, htake, hpull, hrest⟩
    · simpa [Outlet.step, Outlet.takes, hnone] using h
    · have hstep : o.step mux (.takeFrame cap) = { o with inHand := some ready, out := out' } := by
        simp [Outlet.step, hhand, htake]
      have htakes : o.takes (.takeFrame cap) = [(cap, ready)] := by
        simp [Outlet.takes, hhand, htake]
      rw [hstep, htakes]
      refine { h with held := ⟨rest, hrest, ?_, ?_⟩, shipped := ?_, inHand := ?_, within := ?_ }
      · simp [hbytes, pull_bytes hpull]
      · simp [hcontrol, pull_control hpull]
      · have hshipped := h.shipped
        simp only [hhand, Option.toList_none, List.append_nil] at hshipped
        simp [hshipped]
      · rintro _ ⟨rfl⟩
        exact pull_counted hpull
      · intro f hf
        rcases List.mem_append.mp hf with hold | hnew
        · exact h.within f hold
        · rw [List.mem_singleton.mp hnew]
          exact pull_size hpull

theorem ship : o.ship.Carries first frames bytes control := by
  have hshipped := h.shipped
  cases hhand : o.inHand with
  | none =>
    have hstep : o.ship = o := by simp [Outlet.ship, hhand]
    rwa [hstep]
  | some ready =>
    rw [hhand] at hshipped
    cases ready with
    | exit code =>
      have hstep : o.ship
          = { o with inHand := none, shipped := o.shipped ++ [.exit code] } := by
        simp [Outlet.ship, hhand]
      have hsequenced : o.ship.sequenced = o.sequenced := by simp [hstep, Outlet.sequenced]
      refine ⟨?_, ?_, ?_, h.within, ?_, ?_⟩
      · rw [hstep]; exact h.held
      · rw [hstep, ← hshipped]
        simp [Shipped.ready]
      · simp [hstep]
      · rw [hsequenced]; exact h.numbered
      · rw [hsequenced, hstep]; exact h.next
    | output payload byteCount rider =>
      have hcounted : byteCount = payload.length := h.inHand _ hhand
      have hseq : (o.replay.buffer.append payload).highestSeq = o.replay.buffer.highestSeq + 1 := rfl
      have hsequenced : o.ship.sequenced
          = o.sequenced ++ [(o.replay.buffer.highestSeq + 1, payload)] := by
        simp [Outlet.ship, hhand, Outlet.sequenced, hseq]
      refine ⟨?_, ?_, ?_, h.within, ?_, ?_⟩
      · simpa [Outlet.ship, hhand] using h.held
      · rw [← hshipped, hcounted]
        simp [Outlet.ship, hhand, Shipped.ready]
      · simp [Outlet.ship, hhand]
      · rw [hsequenced, List.map_append, numbered_append, ← h.numbered, List.length_map, ← h.next]
        rfl
      · have hlast : o.ship.replay.buffer.highestSeq = o.replay.buffer.highestSeq + 1 := by
          simp [Outlet.ship, hhand, hseq]
        have hnext := h.next
        rw [hsequenced, List.length_append, hlast]
        simp only [List.length_singleton]
        omega

theorem step (mux : MuxFlowControl) (op : OutletOp) :
    (o.step mux op).Carries first (frames ++ o.takes op) (bytes ++ op.appended)
      (control ++ op.appendedControl) := by
  cases op with
  | appendChunk chunk rider =>
    simpa [Outlet.step, Outlet.takes, OutletOp.appended, OutletOp.appendedControl] using
      h.appendChunk chunk rider
  | appendExit code =>
    simpa [Outlet.step, Outlet.takes, OutletOp.appended, OutletOp.appendedControl] using
      h.appendExit code
  | takeFrame cap =>
    simpa [OutletOp.appended, OutletOp.appendedControl] using h.takeFrame mux cap
  | ship =>
    simpa [Outlet.step, Outlet.takes, OutletOp.appended, OutletOp.appendedControl] using h.ship
  | ring op =>
    have hnext := h.next
    rw [← highestSeq_ring mux o.replay op] at hnext
    simpa [Outlet.step, Outlet.takes, OutletOp.appended, OutletOp.appendedControl] using
      ({ h with next := hnext } :
        Outlet.Carries first frames bytes control
          { o with replay := o.replay.paneStep mux op.toPaneOp })

theorem run (mux : MuxFlowControl) (ops : List OutletOp) :
    (run (Outlet.step mux) o ops).Carries first (frames ++ Outlet.taken mux o ops)
      (bytes ++ ops.flatMap OutletOp.appended) (control ++ ops.flatMap OutletOp.appendedControl) := by
  induction ops generalizing o frames bytes control with
  | nil => simpa [Outlet.taken] using h
  | cons op ops ih => simpa [Outlet.taken] using ih (h.step mux op)

end

end Outlet.Carries

theorem Outlet.carries_start (b : ReplayBuffer) : (Outlet.start b).Carries (b.highestSeq + 1) [] [] [] where
  held := ⟨[], ⟨0, .nil 0⟩, rfl, rfl⟩
  shipped := rfl
  inHand := by simp [Outlet.start]
  within := by simp
  numbered := rfl
  next := by simp [Outlet.start, ReplaySession.start, Outlet.sequenced]

/-- The outbox preserves the stream. In every run of producers, drain and
ring: the frames taken are those shipped and the one in the drain's hand;
their bytes and exit markers, followed by what is still queued, are the
bytes and markers appended, in order, and so for the control messages;
each is within the cap it was taken under; the data frames are numbered
consecutively from the ring's head; and whatever the cap, a take on a
queue that is not empty removes something from it. -/
theorem Outlet.preserves_stream (mux : MuxFlowControl) (b : ReplayBuffer) (ops : List OutletOp) :
    let o := run (Outlet.step mux) (Outlet.start b) ops
    let frames := Outlet.taken mux (Outlet.start b) ops
    o.shipped.map Shipped.ready ++ o.inHand.toList = frames.map Prod.snd ∧
    ops.flatMap OutletOp.appended = (frames.flatMap fun f => f.2.bytes) ++ o.out.pending ∧
    ops.flatMap OutletOp.appendedControl
      = (frames.flatMap fun f => f.2.control) ++ o.out.pendingControl ∧
    (∀ f ∈ frames, f.2.size ≤ max f.1 1) ∧
    o.sequenced = numbered (b.highestSeq + 1) (o.sequenced.map Prod.snd) ∧
    ∀ cap, o.out.outbox.isEmpty = false → ∃ ready out',
      o.out.takeFrame cap = some (ready, out') ∧
      queueLoad out'.outbox.queue < queueLoad o.out.outbox.queue := by
  intro o frames
  have h := (Outlet.carries_start b).run mux ops
  obtain ⟨entries, hholds, hbytes, hcontrol⟩ := h.held
  refine ⟨h.shipped, hholds.pending ▸ hbytes, hholds.pendingControl ▸ hcontrol, h.within,
    h.numbered, fun cap hne => ?_⟩
  rcases hholds.takeFrame cap with ⟨hnil, _⟩ | ⟨ready, out', rest, htake, hpull, hrest⟩
  · have hempty : o.out.outbox.isEmpty = true := List.isEmpty_iff.mpr hnil
    rw [hempty] at hne
    contradiction
  · refine ⟨ready, out', htake, ?_⟩
    rw [hholds.load, hrest.load]
    exact pull_load (by omega) hpull

end SlopDesk.Session
