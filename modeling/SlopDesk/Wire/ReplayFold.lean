/-
SlopDesk.Wire.ReplayFold — a fold adopted late, and the lag metric.

§1 The generation moves whenever the ring may have, so a fold that still
has the buffer's generation has the buffer's ring. §2 Runs that remember
the ring behind every captured fold. §3 The running labels of the tail say
how many bytes lie above any sequence number.
-/
import SlopDesk.Wire.ReplayOrder
import Mathlib.Data.List.Forall2

namespace SlopDesk.Wire

open SlopDesk.Base SlopDesk.Mux

/-! ## §1 Generations -/

namespace ReplayBuffer

@[simp] theorem ringGeneration_attach (b : ReplayBuffer) :
    b.attachPendingReopen.ringGeneration = b.ringGeneration := by
  unfold attachPendingReopen
  split <;> rfl

@[simp] theorem ringGeneration_evict (b : ReplayBuffer) :
    b.evictScrollbackToFit.ringGeneration = b.ringGeneration := by
  unfold evictScrollbackToFit
  split
  · split
    · rfl
    · rw [ringGeneration_attach]
      rfl
  · rfl

theorem ringGeneration_retire (b : ReplayBuffer) (released : List TailEntry) :
    (b.retire released).ringGeneration = b.ringGeneration := by
  unfold retire
  split
  · rw [ringGeneration_evict, moveToRing]
    split
    · exact ringGeneration_attach _
    · rfl
  · rfl

/-- What an operation may do to the ring: nothing, or move the generation. -/
structure Moves (b b' : ReplayBuffer) : Prop where
  mono : b.ringGeneration ≤ b'.ringGeneration
  ring : b'.ringGeneration = b.ringGeneration → b'.scrollbackRing = b.scrollbackRing

theorem Moves.refl (b : ReplayBuffer) : Moves b b := ⟨Nat.le_refl _, fun _ => rfl⟩

theorem Moves.next {b b' : ReplayBuffer} (h : b'.ringGeneration = b.ringGeneration + 1) : Moves b b' :=
  ⟨by omega, fun heq => absurd (h.symm.trans heq) (by omega)⟩

theorem moves_ack (b : ReplayBuffer) (upTo : Int) : Moves b (b.ack upTo) := by
  unfold ack
  dsimp only
  split
  · exact Moves.refl b
  · split
    · exact ⟨Nat.le_refl _, fun _ => rfl⟩
    · refine Moves.next ?_
      show (ReplayBuffer.retire _ _).ringGeneration = _
      rw [ringGeneration_retire]
      rfl

theorem moves_adoptFolded (mux : MuxFlowControl) (b : ReplayBuffer) (rendered : List UInt8)
    (source : RingFoldSource) : Moves b (b.adoptFoldedRing mux rendered source).2 := by
  rcases adoptFolded_cases mux b rendered source with ⟨_, heq⟩ | ⟨_, heq⟩
  · rw [heq]
    exact Moves.refl b
  · rw [heq]
    exact Moves.next rfl

theorem moves_adoptSnapshot (b : ReplayBuffer) (stream : List OutputMessage) :
    Moves b (b.adoptSnapshotReplay stream) := by
  refine Moves.next ?_
  rw [adoptSnapshotReplay, ringGeneration_evict]
  rfl

end ReplayBuffer

/-! ## §2 Late folds -/

/-- What may be done to a buffer: what a pane does, and the adoption of a
rendered snapshot that nobody first measured. -/
inductive BufferOp where
  | pane (op : PaneOp)
  | adoptSnapshot (after : Int) (rendered : List UInt8)

/-- A session, and the ring behind each fold captured in it. -/
structure FoldRun where
  session : ReplaySession
  rings : List (List RingEntry)

namespace FoldRun

open ReplayBuffer

variable {r : FoldRun}

def start (maxBackup offlineGate scrollback : Nat) (distiller : Option (List UInt8 → List UInt8)) : FoldRun :=
  ⟨.start { withCaps maxBackup offlineGate scrollback with scrollbackDistiller := distiller }, []⟩

def step (mux : MuxFlowControl) (r : FoldRun) : BufferOp → FoldRun
  | .pane op =>
    { session := r.session.paneStep mux op
      rings :=
        match op with
        | .replay .captureFold =>
          r.rings ++ r.session.buffer.ringFoldSource.toList.map fun _ => r.session.buffer.scrollbackRing
        | _ => r.rings }
  | .adoptSnapshot after rendered =>
    { r with session := { r.session with
        buffer := r.session.buffer.adoptSnapshotReplay
          (rechunkSnapshot mux rendered (r.session.buffer.snapshotSource after).replaySeqs) } }

/-- A captured fold and the ring it was captured from. -/
structure Captured (b : ReplayBuffer) (source : RingFoldSource) (ring : List RingEntry) : Prop where
  seqs : source.seqs = ring.map RingEntry.seq
  bytes : source.bytes = ringContent ring
  generation : source.generation ≤ b.ringGeneration
  current : source.generation = b.ringGeneration → b.scrollbackRing = ring

theorem Captured.moves {b b' : ReplayBuffer} {source : RingFoldSource} {ring : List RingEntry}
    (h : Captured b source ring) (hmoves : Moves b b') : Captured b' source ring := by
  refine ⟨h.seqs, h.bytes, Nat.le_trans h.generation hmoves.mono, fun heq => ?_⟩
  have hle := h.generation
  have hmono := hmoves.mono
  have hsame : b'.ringGeneration = b.ringGeneration := by omega
  rw [hmoves.ring hsame, h.current (heq.trans hsame)]

/-- What holds of a run: the buffer is in order, and every captured fold is
known with its ring. -/
structure Known (r : FoldRun) : Prop where
  ordered : r.session.Ordered
  captured : List.Forall₂ (Captured r.session.buffer) r.session.captured r.rings

theorem Known.buffer (h : r.Known) {b : ReplayBuffer} {appended : List (List UInt8)}
    (hordered : ReplaySession.Ordered ⟨b, r.session.captured, appended⟩) (hmoves : Moves r.session.buffer b) :
    Known ⟨⟨b, r.session.captured, appended⟩, r.rings⟩ :=
  ⟨hordered, h.captured.imp fun _ _ hcaptured => hcaptured.moves hmoves⟩

theorem known_start (maxBackup offlineGate scrollback : Nat) (distiller : Option (List UInt8 → List UInt8)) :
    (start maxBackup offlineGate scrollback distiller).Known :=
  ⟨ReplaySession.ordered_start maxBackup offlineGate scrollback distiller, List.Forall₂.nil⟩

theorem Known.captureFold (h : r.Known) (mux : MuxFlowControl) :
    (r.step mux (.pane (.replay .captureFold))).Known := by
  refine ⟨h.ordered.captureFold, ?_⟩
  rcases ringFoldSource_cases r.session.buffer with ⟨_, hnone⟩ | ⟨_, hsome⟩
  · simpa [step, ReplaySession.paneStep, ReplaySession.step, hnone] using h.captured
  · have hnew : Captured r.session.buffer
        ⟨ringContent r.session.buffer.scrollbackRing, r.session.buffer.scrollbackRing.map RingEntry.seq,
          r.session.buffer.ringGeneration⟩ r.session.buffer.scrollbackRing :=
      ⟨rfl, rfl, Nat.le_refl _, fun _ => rfl⟩
    simp only [step, ReplaySession.paneStep, ReplaySession.step, hsome, Option.toList_some, List.map_cons,
      List.map_nil]
    exact List.rel_append h.captured (List.Forall₂.cons hnew List.Forall₂.nil)

theorem Known.step {mux : MuxFlowControl} (op : BufferOp) (h : r.Known) : (r.step mux op).Known := by
  cases op with
  | adoptSnapshot after rendered =>
    have hordered := (h.ordered.buffer.adopted (seqs_rechunk mux rendered _ true)
      (getLast?_rechunk mux rendered ((r.session.buffer.messages after).map OutputMessage.seq))).evict
    have hacked := (ringOnly_evict (r.session.buffer.adopted
      (rechunk mux rendered ((r.session.buffer.messages after).map OutputMessage.seq) true))).ackedSeq
    exact h.buffer (h.ordered.buffer_step hordered (Int.le_of_eq hacked.symm)) (moves_adoptSnapshot _ _)
  | pane op =>
    have hordered : (r.session.paneStep mux op).Ordered := ReplaySession.ordered_paneStep op h.ordered
    cases op with
    | composeSnapshot after rendered =>
      refine h.buffer hordered ?_
      rcases composeSnapshot_cases mux r.session.buffer after rendered with heq | heq
      · rw [heq]
        exact Moves.refl _
      · rw [heq]
        exact moves_adoptSnapshot _ _
    | replay op =>
      cases op with
      | append bytes => exact h.buffer hordered ⟨Nat.le_refl _, fun _ => rfl⟩
      | ack upTo => exact h.buffer hordered (moves_ack _ upTo)
      | setClientOnline online => exact h.buffer hordered ⟨Nat.le_refl _, fun _ => rfl⟩
      | setPendingAltReopen reopen => exact h.buffer hordered ⟨Nat.le_refl _, fun _ => rfl⟩
      | captureFold => exact h.captureFold mux
      | adoptFold index rendered =>
        rcases ReplaySession.adoptFold_cases mux r.session index rendered with ⟨_, heq⟩ | ⟨source, _, heq⟩
        · have hsame : r.step mux (.pane (.replay (.adoptFold index rendered))) = r := by
            show FoldRun.mk (ReplaySession.step mux r.session (.adoptFold index rendered)) r.rings = r
            rw [heq]
          rw [hsame]
          exact h
        · have hnext : r.step mux (.pane (.replay (.adoptFold index rendered))) =
              ⟨{ r.session with buffer := (r.session.buffer.adoptFoldedRing mux rendered source).2 }, r.rings⟩ := by
            show FoldRun.mk (ReplaySession.step mux r.session (.adoptFold index rendered)) r.rings = _
            rw [heq]
          have hordered' := hordered
          rw [show ReplaySession.paneStep mux r.session (.replay (.adoptFold index rendered)) =
            { r.session with buffer := (r.session.buffer.adoptFoldedRing mux rendered source).2 } from heq]
            at hordered'
          rw [hnext]
          exact h.buffer hordered' (moves_adoptFolded mux _ rendered source)

end FoldRun

/-- What an adoption of a captured fold may do. -/
structure SafeFold (b : ReplayBuffer) (source : RingFoldSource) (ring : List RingEntry)
    (adoption : Bool × ReplayBuffer) : Prop where
  captured : source.seqs = ring.map RingEntry.seq ∧ source.bytes = ringContent ring
  refused : adoption.1 = false → adoption.2 = b
  exact_ring : adoption.1 = true → b.scrollbackRing = ring
  frame : adoption.2.entries = b.entries ∧ adoption.2.ackedSeq = b.ackedSeq ∧
    adoption.2.highestSeq = b.highestSeq ∧ adoption.2.retainedBytes = b.retainedBytes
  ascending : adoption.1 = true → Ascending adoption.2.ringSeqs
  drawn : adoption.1 = true → adoption.2.ringSeqs.Sublist source.seqs
  last : adoption.1 = true → adoption.2.ringSeqs.getLast? = source.seqs.getLast?

/-- However late a captured fold comes, and whatever was done to the buffer
in between. -/
theorem fold_splice_safe (mux : MuxFlowControl) (maxBackup offlineGate scrollback : Nat)
    (distiller : Option (List UInt8 → List UInt8)) (ops : List BufferOp) (index : Nat) (source : RingFoldSource)
    (rendered : List UInt8) :
    let r := run (FoldRun.step mux) (FoldRun.start maxBackup offlineGate scrollback distiller) ops
    r.session.captured[index]? = some source → ∃ ring, r.rings[index]? = some ring ∧
      SafeFold r.session.buffer source ring (r.session.buffer.adoptFoldedRing mux rendered source) := by
  intro r hsource
  have hknown : r.Known := run_invariant FoldRun.Known (fun _ op => FoldRun.Known.step op)
    (FoldRun.known_start maxBackup offlineGate scrollback distiller) ops
  obtain ⟨hlt, hget⟩ := List.getElem?_eq_some_iff.mp hsource
  have hlength := hknown.captured.length_eq
  have hring : index < r.rings.length := hlength ▸ hlt
  have hcaptured : FoldRun.Captured r.session.buffer source r.rings[index] := by
    rw [← hget]
    exact hknown.captured.get hlt hring
  obtain ⟨-, hascending, -⟩ := hknown.ordered.captured source (List.mem_of_getElem? hsource)
  refine ⟨r.rings[index], List.getElem?_eq_getElem hring, ?_⟩
  have honly := ReplayBuffer.ringOnly_adoptFolded mux r.session.buffer rendered source
  have hdrawn : (r.session.buffer.adoptFoldedRing mux rendered source).1 = true →
      (r.session.buffer.adoptFoldedRing mux rendered source).2.ringSeqs =
        (rechunk mux rendered source.seqs true).map OutputMessage.seq := by
    intro htaken
    unfold ReplayBuffer.adoptFoldedRing at htaken ⊢
    split at htaken
    · exact absurd htaken (by simp)
    · rename_i hfresh
      simp [hfresh, ReplayBuffer.ringSeqs]
  refine ⟨⟨hcaptured.seqs, hcaptured.bytes⟩, ?_, ?_, ⟨honly.entries, honly.ackedSeq, honly.highestSeq,
    honly.retainedBytes⟩, ?_, ?_, ?_⟩
  · intro hrefused
    unfold ReplayBuffer.adoptFoldedRing at hrefused ⊢
    split
    · rfl
    · grind
  · intro htaken
    refine hcaptured.current (Decidable.byContradiction fun hstale => ?_)
    exact absurd htaken (by simp [ReplayBuffer.adoptFoldedRing, hstale])
  · intro htaken
    rw [hdrawn htaken]
    exact hascending.sublist (seqs_rechunk mux rendered source.seqs true)
  · intro htaken
    rw [hdrawn htaken]
    exact seqs_rechunk mux rendered source.seqs true
  · intro htaken
    rw [hdrawn htaken]
    exact getLast?_rechunk mux rendered source.seqs

/-- A fold captured after two acks, and adopted over the third payload. -/
theorem fold_splice_safe_late :
    let r := run (FoldRun.step ⟨none, none⟩) (FoldRun.start 100 100 100 none)
      [.pane (.replay (.append [1])), .pane (.replay (.append [2])), .pane (.replay (.ack 2)),
        .pane (.replay .captureFold), .pane (.replay (.append [3]))]
    ∃ ring, r.rings[0]? = some ring ∧ SafeFold r.session.buffer ⟨[1, 2], [1, 2], 1⟩ ring
      (r.session.buffer.adoptFoldedRing ⟨none, none⟩ [9] ⟨[1, 2], [1, 2], 1⟩) :=
  fold_splice_safe ⟨none, none⟩ 100 100 100 none _ 0 ⟨[1, 2], [1, 2], 1⟩ [9] (by decide +kernel)

/-! ## §3 The lag metric -/

namespace ReplayBuffer

variable {entries : List TailEntry} {b : ReplayBuffer}

/-- Every label and the bytes from its entry on come to `top`. -/
def LabelsTo (top : Nat) : List TailEntry → Prop
  | [] => True
  | e :: rest => e.cumulativeBefore + (tailContent (e :: rest)).length = top ∧ LabelsTo top rest

theorem LabelsTo.drop {top : Nat} (h : LabelsTo top entries) (n : Nat) : LabelsTo top (entries.drop n) := by
  induction n generalizing entries with
  | zero => exact h
  | succ n ih =>
    cases entries with
    | nil => exact h
    | cons e rest => exact ih h.2

theorem LabelsTo.concat {top : Nat} (h : LabelsTo top entries) (seq : Int)
    (bytes : List UInt8) : LabelsTo (top + bytes.length) (entries ++ [⟨seq, bytes, top⟩]) := by
  induction entries with
  | nil => simp [LabelsTo, tailContent]
  | cons e rest ih =>
    refine ⟨?_, ih h.2⟩
    have hfirst := h.1
    have hcontent : tailContent (e :: rest ++ [⟨seq, bytes, top⟩]) = tailContent (e :: rest) ++ bytes := by
      simp [tailContent]
    show e.cumulativeBefore + (tailContent (e :: rest ++ [⟨seq, bytes, top⟩])).length = top + bytes.length
    rw [hcontent, List.length_append]
    omega

theorem labelsTo_labelled (total : Nat) (ms : List OutputMessage) :
    LabelsTo (total + (ms.map fun m => m.bytes.length).sum) (labelled total ms) := by
  induction ms generalizing total with
  | nil => trivial
  | cons m ms ih =>
    have hrest := ih (total + m.bytes.length)
    have hcontent (total : Nat) : (tailContent (labelled total ms)).length =
        (ms.map fun m => m.bytes.length).sum := by
      clear ih hrest
      induction ms generalizing total with
      | nil => rfl
      | cons m ms ih => simpa [labelled, tailContent] using ih (total + m.bytes.length)
    rw [Nat.add_assoc, ← List.sum_cons, ← List.map_cons (f := fun m : OutputMessage => m.bytes.length)] at hrest
    refine ⟨?_, hrest⟩
    have hlength := hcontent (total + m.bytes.length)
    simp only [tailContent] at hlength
    simp only [tailContent, List.flatMap_cons, List.length_append, List.map_cons, List.sum_cons, hlength]

/-- The labels are right. -/
def Labels (b : ReplayBuffer) : Prop := LabelsTo b.tailCumulativeBytes b.entries

theorem Labels.ringOnly {b' : ReplayBuffer} (h : b.Labels) (honly : RingOnly b b') : b'.Labels := by
  unfold Labels
  rw [honly.tailCumulativeBytes, honly.entries]
  exact h

theorem Labels.ack (h : b.Labels) (hcounted : b.Counted) (upTo : Int) : (b.ack upTo).Labels := by
  rcases ack_cases hcounted upTo with ⟨_, heq⟩ | ⟨_, hreleases⟩
  · rwa [heq]
  · unfold Labels
    rw [hreleases.tailCumulativeBytes, hreleases.entries]
    exact h.drop _

theorem labels_adoptSnapshot (b : ReplayBuffer) (stream : List OutputMessage) :
    (b.adoptSnapshotReplay stream).Labels :=
  Labels.ringOnly (b := b.adopted stream) (labelsTo_labelled _ _) (ringOnly_evict _)

theorem dropWhile_eq_filter (h : Ascending (entries.map TailEntry.seq)) (seq : Int) :
    (entries.dropWhile fun e => e.seq ≤ seq) = entries.filter fun e => seq < e.seq := by
  induction entries with
  | nil => rfl
  | cons e rest ih =>
    obtain ⟨habove, hrest⟩ := List.pairwise_cons.mp h
    by_cases hle : e.seq ≤ seq
    · simp [hle, hnot, ih hrest]
    · have hlt : seq < e.seq := by omega
      have hall : rest.filter (fun e => seq < e.seq) = rest := by
        refine List.filter_eq_self.mpr fun e' he' => ?_
        have hnext := habove e'.seq (List.mem_map_of_mem he')
        simp only [decide_eq_true_eq]
        omega
      simp [hle, hlt, hall]

theorem Labels.retainedBytesAbove (h : b.Labels) (hordered : b.Ordered) (seq : Int) :
    b.retainedBytesAbove seq = ((b.entries.filter fun e => seq < e.seq).map fun e => e.bytes.length).sum := by
  have hsuffix := dropWhile_eq_filter hordered.tail seq
  have hlabels : LabelsTo b.tailCumulativeBytes (b.entries.dropWhile fun e => e.seq ≤ seq) := by
    rw [← drop_takeWhile_length]
    exact LabelsTo.drop h _
  have hget : b.entries[partitionPoint (fun e => e.seq ≤ seq) b.entries]? =
      (b.entries.dropWhile fun e => e.seq ≤ seq).head? := by
    rw [partitionPoint, ← drop_takeWhile_length, List.head?_drop]
  unfold ReplayBuffer.retainedBytesAbove
  rw [hget, ← hsuffix, ← length_tailContent]
  cases hdrop : b.entries.dropWhile fun e => e.seq ≤ seq with
  | nil => rfl
  | cons e rest =>
    rw [hdrop] at hlabels
    have hfirst := hlabels.1
    simp only [List.head?_cons]
    omega

end ReplayBuffer

theorem FoldRun.labels_step {mux : MuxFlowControl} {r : FoldRun} (op : BufferOp) (hknown : r.Known)
    (h : r.session.buffer.Labels) : (r.step mux op).session.buffer.Labels := by
  have hcounted := hknown.ordered.buffer.counted
  cases op with
  | adoptSnapshot after rendered => exact ReplayBuffer.labels_adoptSnapshot _ _
  | pane op =>
    cases op with
    | composeSnapshot after rendered =>
      show (r.session.buffer.composeSnapshot mux after rendered).Labels
      rcases ReplayBuffer.composeSnapshot_cases mux r.session.buffer after rendered with heq | heq
      · rwa [heq]
      · rw [heq]
        exact ReplayBuffer.labels_adoptSnapshot _ _
    | replay op =>
      cases op with
      | append bytes => exact ReplayBuffer.LabelsTo.concat h _ _
      | ack upTo => exact h.ack hcounted upTo
      | setClientOnline online => exact h
      | setPendingAltReopen reopen => exact h
      | captureFold => exact h
      | adoptFold index rendered =>
        show (ReplaySession.step mux r.session (.adoptFold index rendered)).buffer.Labels
        rcases ReplaySession.adoptFold_cases mux r.session index rendered with ⟨_, heq⟩ | ⟨source, _, heq⟩
        · rwa [heq]
        · rw [heq]
          exact h.ringOnly (ReplayBuffer.ringOnly_adoptFolded mux _ rendered source)

/-- In every buffer that can be reached `retained_bytes_above` is what it
is named for, for every sequence number. -/
theorem retained_bytes_above_exact (mux : MuxFlowControl) (maxBackup offlineGate scrollback : Nat)
    (distiller : Option (List UInt8 → List UInt8)) (ops : List BufferOp) (seq : Int) :
    let b := (run (FoldRun.step mux) (FoldRun.start maxBackup offlineGate scrollback distiller) ops).session.buffer
    b.retainedBytesAbove seq = ((b.entries.filter fun e => seq < e.seq).map fun e => e.bytes.length).sum := by
  intro b
  have hstart := FoldRun.known_start maxBackup offlineGate scrollback distiller
  obtain ⟨hknown, hlabels⟩ : (run (FoldRun.step mux) (FoldRun.start maxBackup offlineGate scrollback distiller)
      ops).Known ∧ b.Labels :=
    run_invariant (fun r : FoldRun => r.Known ∧ r.session.buffer.Labels)
      (fun _ op h => ⟨h.1.step op, FoldRun.labels_step op h.1 h.2⟩) ⟨hstart, trivial⟩ ops
  exact hlabels.retainedBytesAbove hknown.ordered.buffer seq

end SlopDesk.Wire
