/-
SlopDesk.Wire.ReplayTail — nothing un-acked is ever dropped.

The payloads a buffer was handed, numbered from 1, are the abstract state:
the tail is what is left of them above the acked number. One step of a
session keeps that, and with it both byte counters, whatever the ring does
(§2); §3 is the same over whole runs, and §4 bounds the tail where each
append passes the drain gate.
-/
import SlopDesk.Wire.ReplayTheorems

namespace SlopDesk.Wire

open SlopDesk.Base
open SlopDesk.Mux

/-! ## §1 Numbered payloads -/

/-- A list with its elements numbered from `first` up. -/
def numbered (first : Int) : List α → List (Int × α)
  | [] => []
  | x :: xs => (first, x) :: numbered (first + 1) xs

theorem numbered_append (first : Int) (l l' : List α) :
    numbered first (l ++ l') = numbered first l ++ numbered (first + l.length) l' := by
  induction l generalizing first with
  | nil => simp [numbered]
  | cons x xs ih =>
    have hfirst : first + 1 + (xs.length : Int) = first + ((x :: xs).length : Nat) := by
      simp only [List.length_cons]
      omega
    simp only [List.cons_append, numbered]
    rw [ih, hfirst]

theorem dropWhile_numbered (first last : Int) (l : List α) (h : first ≤ last + 1) :
    (numbered first l).dropWhile (fun p => p.1 ≤ last)
      = numbered (last + 1) (l.drop (last + 1 - first).toNat) := by
  induction l generalizing first with
  | nil => simp [numbered]
  | cons x xs ih =>
    by_cases hle : first ≤ last
    case pos =>
      have hcount : (last + 1 - first).toNat = (last + 1 - (first + 1)).toNat + 1 := by omega
      rw [numbered, List.dropWhile_cons_of_pos (by simpa using hle), ih (first + 1) (by omega),
        hcount, List.drop_succ_cons]
    case neg =>
      have hfirst : first = last + 1 := by omega
      simp [hfirst, numbered]

/-- The numbers and payloads of a run of tail entries. -/
def pairs (entries : List TailEntry) : List (Int × List UInt8) :=
  entries.map fun e => (e.seq, e.bytes)

@[simp] theorem pairs_append (a b : List TailEntry) : pairs (a ++ b) = pairs a ++ pairs b := by
  simp [pairs]

theorem drop_takeWhile_length (p : α → Bool) (l : List α) :
    l.drop (l.takeWhile p).length = l.dropWhile p := by
  induction l with
  | nil => rfl
  | cons x xs ih => cases h : p x <;> simp [h, ih]

theorem pairs_dropWhile (last : Int) (entries : List TailEntry) :
    pairs (entries.dropWhile fun e => e.seq ≤ last)
      = (pairs entries).dropWhile fun p => p.1 ≤ last := by
  simp only [pairs, List.dropWhile_map]
  rfl

/-! ## §2 One step -/

/-- The un-acked tail is the payloads above the acked number, numbered on
from it, and both byte counters are right. -/
structure ReplaySession.NeverDrops (s : ReplaySession) : Prop where
  tail : pairs s.buffer.entries
    = numbered (s.buffer.ackedSeq + 1) (s.appended.drop s.buffer.ackedSeq.toNat)
  highestSeq : s.buffer.highestSeq = s.appended.length
  ackedSeq_nonneg : 0 ≤ s.buffer.ackedSeq
  ackedSeq_le : s.buffer.ackedSeq ≤ s.buffer.highestSeq
  retainedBytes : s.buffer.retainedBytes = (tailContent s.buffer.entries).length
  scrollbackBytes : s.buffer.scrollbackBytes = (ringContent s.buffer.scrollbackRing).length
  -- a fold has numbers to ride
  captured : ∀ source ∈ s.captured, source.seqs ≠ []

namespace ReplayBuffer

theorem adoptFolded_cases (mux : MuxFlowControl) (b : ReplayBuffer) (rendered : List UInt8)
    (source : RingFoldSource) :
    (source.generation ≠ b.ringGeneration ∧ (b.adoptFoldedRing mux rendered source).2 = b) ∨
    (source.generation = b.ringGeneration ∧ (b.adoptFoldedRing mux rendered source).2
      = { b with
          ringGeneration := b.ringGeneration + 1
          scrollbackRing := (rechunk mux rendered source.seqs true).map fun m => ⟨m.seq, m.bytes⟩
          scrollbackBytes := rendered.length
          pendingAltReopen := none }) := by
  unfold adoptFoldedRing
  by_cases hstale : source.generation ≠ b.ringGeneration
  case pos =>
    rw [if_pos hstale]
    exact .inl ⟨hstale, rfl⟩
  case neg =>
    grind

theorem ringOnly_adoptFolded (mux : MuxFlowControl) (b : ReplayBuffer) (rendered : List UInt8)
    (source : RingFoldSource) : RingOnly b (b.adoptFoldedRing mux rendered source).2 := by
  rcases adoptFolded_cases mux b rendered source with ⟨_, heq⟩ | ⟨_, heq⟩
  · rw [heq]; exact RingOnly.refl b
  · rw [heq]; exact ⟨rfl, rfl, rfl, rfl, rfl, rfl, rfl⟩

theorem ringContent_map_messages (ms : List OutputMessage) :
    ringContent (ms.map fun m => ⟨m.seq, m.bytes⟩) = messageContent ms := by
  simp [ringContent, messageContent, List.flatMap_map]

theorem Counted.adoptFolded {mux : MuxFlowControl} {b : ReplayBuffer} (h : b.Counted)
    {rendered : List UInt8} {source : RingFoldSource} (hseqs : source.seqs ≠ []) :
    (b.adoptFoldedRing mux rendered source).2.Counted := by
  rcases adoptFolded_cases mux b rendered source with ⟨_, heq⟩ | ⟨_, heq⟩
  · rwa [heq]
  · rw [heq]
    unfold Counted
    rw [ringContent_map_messages, messageContent_rechunk mux rendered true hseqs]

theorem ringFoldSource_cases (b : ReplayBuffer) : (b.scrollbackRing = [] ∧ b.ringFoldSource = none) ∨
    (b.scrollbackRing ≠ [] ∧ b.ringFoldSource = some {
      bytes := ringContent b.scrollbackRing
      seqs := b.scrollbackRing.map RingEntry.seq
      generation := b.ringGeneration }) := by
  unfold ringFoldSource
  cases hring : b.scrollbackRing with
  | nil => exact .inl ⟨rfl, by simp⟩
  | cons head rest => exact .inr ⟨by simp, by simp⟩

end ReplayBuffer

namespace ReplaySession

open ReplayBuffer

variable {s : ReplaySession} {mux : MuxFlowControl}

theorem NeverDrops.append (h : s.NeverDrops) (bytes : List UInt8) :
    NeverDrops { s with buffer := s.buffer.append bytes, appended := s.appended ++ [bytes] } := by
  have hacked := h.ackedSeq_le
  have hnonneg := h.ackedSeq_nonneg
  have hhighest := h.highestSeq
  have hdrop : (s.appended ++ [bytes]).drop s.buffer.ackedSeq.toNat
      = s.appended.drop s.buffer.ackedSeq.toNat ++ [bytes] :=
    List.drop_append_of_le_length (by omega)
  refine ⟨?_, ?_, hnonneg, ?_, ?_, h.scrollbackBytes, h.captured⟩
  · have hnext : s.buffer.ackedSeq + 1 + ((s.appended.drop s.buffer.ackedSeq.toNat).length : Nat)
        = s.buffer.highestSeq + 1 := by
      rw [List.length_drop]
      omega
    show pairs (s.buffer.entries ++ [_])
      = numbered (s.buffer.ackedSeq + 1) ((s.appended ++ [bytes]).drop s.buffer.ackedSeq.toNat)
    rw [hdrop, numbered_append, pairs_append, h.tail, hnext]
    rfl
  · simp only [ReplayBuffer.append, List.length_append, List.length_singleton]
    omega
  · simp only [ReplayBuffer.append]
    omega
  · simp only [ReplayBuffer.append, tailContent, List.flatMap_append, List.length_append]
    rw [h.retainedBytes]
    simp [tailContent]

theorem NeverDrops.ack (h : s.NeverDrops) (upTo : Int) :
    NeverDrops { s with buffer := s.buffer.ack upTo } := by
  have hnonneg := h.ackedSeq_nonneg
  have hhighest := h.highestSeq
  rcases ack_cases h.scrollbackBytes upTo with ⟨_, heq⟩ | ⟨hpast, hreleases⟩
  · rwa [heq]
  · have hacked : (s.buffer.ack upTo).ackedSeq = min upTo s.buffer.highestSeq := hreleases.ackedSeq
    have hentries := hreleases.entries
    have hretained := hreleases.retainedBytes
    simp only [advance, drop_takeWhile_length] at hentries
    refine ⟨?_, hreleases.highestSeq.trans hhighest, ?_, ?_, ?_, hreleases.counted, h.captured⟩
    · rw [hentries, pairs_dropWhile, h.tail, hacked]
      rw [dropWhile_numbered _ _ _ (by omega), List.drop_drop]
      congr 2
      omega
    · dsimp only
      omega
    · rw [hacked, hreleases.highestSeq]
      exact Int.min_le_right ..
    · have hsplit := congrArg (fun l => (tailContent l).length)
        (List.takeWhile_append_dropWhile (p := fun e : TailEntry =>
          decide (e.seq ≤ min upTo s.buffer.highestSeq)) (l := s.buffer.entries))
      have htake : s.buffer.entries.take
          (s.buffer.entries.takeWhile fun e => e.seq ≤ min upTo s.buffer.highestSeq).length
          = s.buffer.entries.takeWhile fun e => e.seq ≤ min upTo s.buffer.highestSeq :=
        (List.prefix_iff_eq_take.mp (List.takeWhile_prefix _)).symm
      simp only [advance, htake, h.retainedBytes] at hretained
      simp only [tailContent, List.flatMap_append, List.length_append] at hsplit
      rw [hretained, hentries]
      simp only [tailContent]
      omega

theorem NeverDrops.ring (h : s.NeverDrops) {b : ReplayBuffer}
    (honly : RingOnly s.buffer b) (hcounted : b.Counted) : NeverDrops { s with buffer := b } := by
  obtain ⟨htail, hhighest, hnonneg, hle, hretained, _, hcaptured⟩ := h
  rw [← honly.entries, ← honly.ackedSeq] at htail
  rw [← honly.highestSeq] at hhighest hle
  rw [← honly.ackedSeq] at hnonneg hle
  rw [← honly.retainedBytes, ← honly.entries] at hretained
  exact ⟨htail, hhighest, hnonneg, hle, hretained, hcounted, hcaptured⟩

theorem NeverDrops.captureFold (h : s.NeverDrops) :
    NeverDrops { s with captured := s.captured ++ s.buffer.ringFoldSource.toList } := by
  obtain ⟨htail, hhighest, hnonneg, hle, hretained, hcounted, hcaptured⟩ := h
  refine ⟨htail, hhighest, hnonneg, hle, hretained, hcounted, ?_⟩
  intro source hsource
  rcases List.mem_append.mp hsource with hold | hnew
  · exact hcaptured source hold
  · rcases ringFoldSource_cases s.buffer with ⟨_, hnone⟩ | ⟨hring, hsome⟩
    · simp [hnone] at hnew
    · simp only [hsome, Option.toList_some, List.mem_singleton] at hnew
      simp [hnew, hring]

theorem adoptFold_cases (mux : MuxFlowControl) (s : ReplaySession) (index : Nat) (rendered : List UInt8) :
    (s.captured[index]? = none ∧ step mux s (.adoptFold index rendered) = s) ∨
    ∃ source, s.captured[index]? = some source ∧ step mux s (.adoptFold index rendered)
      = { s with buffer := (s.buffer.adoptFoldedRing mux rendered source).2 } := by
  cases hget : s.captured[index]? with
  | none => exact .inl ⟨rfl, by simp [step, hget]⟩
  | some source => exact .inr ⟨source, rfl, by simp [step, hget]⟩

theorem neverDrops_step (op : ReplayOp) (h : s.NeverDrops) : (step mux s op).NeverDrops := by
  cases op with
  | append bytes => exact h.append bytes
  | ack upTo => exact h.ack upTo
  | setClientOnline online => exact h.ring ⟨rfl, rfl, rfl, rfl, rfl, rfl, rfl⟩ h.scrollbackBytes
  | setPendingAltReopen reopen =>
    exact h.ring ⟨rfl, rfl, rfl, rfl, rfl, rfl, rfl⟩ h.scrollbackBytes
  | captureFold => exact h.captureFold
  | adoptFold index rendered =>
    rcases adoptFold_cases mux s index rendered with ⟨_, heq⟩ | ⟨source, hget, heq⟩
    · rwa [heq]
    · have hseqs := h.captured source (List.mem_of_getElem? hget)
      have hcounted : s.buffer.Counted := h.scrollbackBytes
      rw [heq]
      exact h.ring (ringOnly_adoptFolded mux s.buffer rendered source) (hcounted.adoptFolded hseqs)

theorem ackedSeq_le_step (mux : MuxFlowControl) (op : ReplayOp)
    (h : s.NeverDrops) : s.buffer.ackedSeq ≤ (step mux s op).buffer.ackedSeq := by
  cases op with
  | ack upTo => exact ackedSeq_le_ack h.scrollbackBytes upTo
  | adoptFold index rendered =>
    rcases adoptFold_cases mux s index rendered with ⟨_, heq⟩ | ⟨source, _, heq⟩
    · exact heq.symm ▸ Int.le_refl _
    · rw [heq]
      exact Int.le_of_eq (ringOnly_adoptFolded mux s.buffer rendered source).ackedSeq.symm
  | append | setClientOnline | setPendingAltReopen | captureFold => exact Int.le_refl _

theorem neverDrops_start (maxBackup offlineGate scrollback : Nat)
    (distiller : Option (List UInt8 → List UInt8)) :
    (start { withCaps maxBackup offlineGate scrollback with
      scrollbackDistiller := distiller }).NeverDrops :=
  ⟨rfl, rfl, Int.le_refl 0, Int.le_refl 0, rfl, rfl, by simp [start]⟩

/-! ## §3 Runs -/

theorem neverDrops_run (h : s.NeverDrops) (ops : List ReplayOp) : (run (step mux) s ops).NeverDrops :=
  run_invariant NeverDrops (fun _ op hs => neverDrops_step op hs) h ops

theorem ackedSeq_mono (h : s.NeverDrops) (ops : List ReplayOp) :
    s.buffer.ackedSeq ≤ (run (step mux) s ops).buffer.ackedSeq := by
  induction ops generalizing s with
  | nil => exact Int.le_refl _
  | cons op ops ih => exact Int.le_trans (ackedSeq_le_step mux op h) (ih (neverDrops_step op h))

/-- From a fresh buffer, whatever is run: the tail is the payloads above the
acked number, the acked number only moves up, and the ring never reaches
into the tail. -/
theorem replayBuffer_neverDrops (mux : MuxFlowControl) (maxBackup offlineGate scrollback : Nat)
    (distiller : Option (List UInt8 → List UInt8)) (ops later : List ReplayOp) :
    let fresh := start { withCaps maxBackup offlineGate scrollback with
      scrollbackDistiller := distiller }
    let s := run (step mux) fresh ops
    s.NeverDrops ∧
      s.buffer.ackedSeq ≤ (run (step mux) fresh (ops ++ later)).buffer.ackedSeq ∧
      (∀ b : ReplayBuffer, b.attachPendingReopen.entries = b.entries ∧
        b.evictScrollbackToFit.entries = b.entries ∧
        ∀ rendered source, (b.adoptFoldedRing mux rendered source).2.entries = b.entries) := by
  intro fresh s
  have hs : s.NeverDrops :=
    neverDrops_run (neverDrops_start maxBackup offlineGate scrollback distiller) ops
  refine ⟨hs, ?_, ?_⟩
  · rw [run_append]
    exact ackedSeq_mono hs later
  · intro b
    exact ⟨(ringOnly_attach b).entries, (ringOnly_evict b).entries,
      fun rendered source => (ringOnly_adoptFolded mux b rendered source).entries⟩

/-! ## §4 The drain gate -/

theorem caps_step (s : ReplaySession) (mux : MuxFlowControl) (op : ReplayOp) :
    (step mux s op).buffer.maxBackupBytesCap = s.buffer.maxBackupBytesCap ∧
      (step mux s op).buffer.offlineGateBytesCap = s.buffer.offlineGateBytesCap := by
  cases op with
  | ack upTo =>
    simp only [step, ReplayBuffer.ack, releasePrefix, retire, moveToRing, evictScrollbackToFit, attachPendingReopen]
    repeat' split
    all_goals exact ⟨rfl, rfl⟩
  | adoptFold index rendered =>
    rcases adoptFold_cases mux s index rendered with ⟨_, heq⟩ | ⟨source, _, heq⟩
    · rw [heq]
      exact ⟨rfl, rfl⟩
    · rw [heq]
      unfold adoptFoldedRing
      split <;> exact ⟨rfl, rfl⟩
  | append | setClientOnline | setPendingAltReopen | captureFold => exact ⟨rfl, rfl⟩

theorem numbered_map_snd (first : Int) (l : List α) : (numbered first l).map Prod.snd = l := by
  induction l generalizing first with
  | nil => rfl
  | cons x xs ih => rw [numbered, List.map_cons, ih]

/-- The payloads above the acked number. -/
def unacked (s : ReplaySession) : List UInt8 := (s.appended.drop s.buffer.ackedSeq.toNat).flatten

theorem NeverDrops.unacked (h : s.NeverDrops) : s.buffer.retainedBytes = s.unacked.length := by
  have htail := congrArg (fun l => (l.map Prod.snd).flatten) h.tail
  simp only [numbered_map_snd, pairs, List.map_map] at htail
  rw [h.retainedBytes, ReplaySession.unacked, ← htail]
  simp [tailContent, List.flatMap_def, Function.comp_def]

/-- An append finds the gate open, and is of one chunk at most. -/
def Gated (chunk : Nat) (s : ReplaySession) : ReplayOp → Prop
  | .append bytes => s.buffer.shouldPauseDrain = false ∧ bytes.length ≤ chunk
  | _ => True

theorem unacked_step {chunk : Nat} {op : ReplayOp} (h : s.NeverDrops) (hgate : s.Gated chunk op)
    (hle : s.unacked.length ≤ s.buffer.maxBackupBytesCap + chunk) :
    (step mux s op).unacked.length ≤ s.buffer.maxBackupBytesCap + chunk := by
  have hkept : (step mux s op).appended = s.appended →
      (step mux s op).unacked.length ≤ s.buffer.maxBackupBytesCap + chunk := by
    intro hsame
    have hacked := ackedSeq_le_step mux op h
    obtain ⟨released, hreleased⟩ := List.drop_suffix_drop_left s.appended (Int.toNat_le_toNat hacked)
    rw [unacked, ← hreleased, List.flatten_append, List.length_append] at hle
    rw [unacked, hsame]
    exact Nat.le_trans (Nat.le_add_left ..) hle
  cases op with
  | append bytes =>
    obtain ⟨hopen, hchunk⟩ := hgate
    have hretained : s.buffer.retainedBytes < s.buffer.maxBackupBytesCap := by
      by_contra hfull
      simp [shouldPauseDrain, Nat.not_lt.mp hfull] at hopen
    have hcount : (step mux s (.append bytes)).buffer.retainedBytes = _ := (h.append bytes).unacked
    exact hcount ▸ Nat.add_le_add (Nat.le_of_lt hretained) hchunk
  | adoptFold index rendered =>
    rcases adoptFold_cases mux s index rendered with ⟨_, heq⟩ | ⟨source, _, heq⟩ <;> exact hkept (by rw [heq])
  | ack | setClientOnline | setPendingAltReopen | captureFold => exact hkept rfl

/-- Where each append passes the gate, what is not acked stays within the cap and one
chunk, and once all is acked the gate is open again. -/
theorem drain_gate_bounds (mux : MuxFlowControl) (maxBackup offlineGate scrollback chunk : Nat)
    (distiller : Option (List UInt8 → List UInt8)) (ops : List ReplayOp)
    (hgate : Meets (step mux) (Gated chunk)
      (start { withCaps maxBackup offlineGate scrollback with scrollbackDistiller := distiller }) ops) :
    let s := run (step mux)
      (start { withCaps maxBackup offlineGate scrollback with scrollbackDistiller := distiller }) ops
    s.unacked.length ≤ maxBackup + chunk ∧ (0 < maxBackup → 0 < offlineGate →
      (s.buffer.ack s.buffer.highestSeq).shouldPauseDrain = false) := by
  intro s
  obtain ⟨h, hmax, hoffline, hle⟩ : s.NeverDrops ∧ s.buffer.maxBackupBytesCap = maxBackup ∧
      s.buffer.offlineGateBytesCap = offlineGate ∧ s.unacked.length ≤ maxBackup + chunk := by
    refine hgate.invariant (fun s => s.NeverDrops ∧ s.buffer.maxBackupBytesCap = maxBackup ∧
      s.buffer.offlineGateBytesCap = offlineGate ∧ s.unacked.length ≤ maxBackup + chunk) ?_
      ⟨neverDrops_start maxBackup offlineGate scrollback distiller, rfl, rfl, Nat.zero_le _⟩
    intro s op hop ⟨h, hmax, hoffline, hle⟩
    obtain ⟨hmax', hoffline'⟩ := caps_step s mux op
    exact ⟨neverDrops_step op h, hmax'.trans hmax, hoffline'.trans hoffline,
      hmax ▸ unacked_step h hop (hmax.symm ▸ hle)⟩
  refine ⟨hle, fun hpos hpos' => ?_⟩
  have hhighest := h.highestSeq
  have hacked : (s.buffer.ack s.buffer.highestSeq).ackedSeq = s.buffer.highestSeq := by
    rcases ack_cases h.scrollbackBytes s.buffer.highestSeq with ⟨hold, heq⟩ | ⟨_, hreleases⟩
    · rw [heq]
      exact Int.le_antisymm h.ackedSeq_le (by simpa using hold)
    · exact hreleases.ackedSeq.trans (Int.min_self _)
  have hnone : (s.buffer.ack s.buffer.highestSeq).retainedBytes = 0 := by
    rw [(h.ack s.buffer.highestSeq).unacked, unacked, hacked, hhighest]
    simp
  obtain ⟨hmax', hoffline'⟩ := caps_step s mux (.ack s.buffer.highestSeq)
  simp only [step, hmax, hoffline] at hmax' hoffline'
  simp [shouldPauseDrain, hnone, hmax', hoffline']
  omega

theorem drain_gate_bounds_one :
    let s := run (step ⟨none, none⟩) (start { withCaps 4 4 4 with scrollbackDistiller := none }) [.append [104, 105]]
    s.unacked.length ≤ 4 + 2 ∧ (s.buffer.ack s.buffer.highestSeq).shouldPauseDrain = false := by
  intro s
  obtain ⟨hle, hopen⟩ := drain_gate_bounds ⟨none, none⟩ 4 4 4 2 none [.append [104, 105]] ⟨⟨rfl, by decide⟩, trivial⟩
  exact ⟨hle, hopen (by decide) (by decide)⟩

end ReplaySession

end SlopDesk.Wire
