/-
SlopDesk.Wire.ReplayOrder — the sequence numbers of a buffer are in order,
and a replay sends them in order and up to the top.

§1 the order invariant: ring numbers ascend up to the acked one, tail
numbers ascend above it, and the last of the tail is the highest. §2 every
operation of a pane keeps it, the snapshot adoption of a reattach among
them. §3 reads `replay` off it, path by path.
-/
import SlopDesk.Wire.ReplayTail

namespace SlopDesk.Wire

open SlopDesk.Base
open SlopDesk.Mux

variable {seqs : List Int}
variable {mid : Int} {l : List α} {p : α → Bool} {x : α}

/-! ## §1 Ascending numbers -/

/-- Strictly ascending. -/
def Ascending (seqs : List Int) : Prop := seqs.Pairwise (· < ·)

theorem Ascending.sublist {seqs' : List Int} (h : Ascending seqs)
    (hsub : seqs'.Sublist seqs) : Ascending seqs' := List.Pairwise.sublist hsub h

theorem Ascending.append {a b : List Int} (ha : Ascending a) (hb : Ascending b)
    (hlow : ∀ x ∈ a, x ≤ mid) (hhigh : ∀ y ∈ b, mid < y) : Ascending (a ++ b) := by
  refine List.pairwise_append.mpr ⟨ha, hb, ?_⟩
  intro x hx y hy
  exact Int.lt_of_le_of_lt (hlow x hx) (hhigh y hy)

theorem Ascending.le_last (h : Ascending seqs) {last : Int}
    (hlast : seqs.getLast? = some last) : ∀ x ∈ seqs, x ≤ last := by
  obtain ⟨init, rfl⟩ := List.getLast?_eq_some_iff.mp hlast
  intro x hx
  rcases List.mem_append.mp hx with hinit | hself
  · have hlt := (List.pairwise_append.mp h).2.2 x hinit last (List.mem_singleton.mpr rfl)
    exact Int.le_of_lt hlt
  · exact Int.le_of_eq (List.mem_singleton.mp hself)

theorem Ascending.lt_of_mem_dropWhile (h : Ascending seqs) :
    ∀ x ∈ seqs.dropWhile (fun s => s ≤ mid), mid < x := by
  induction seqs with
  | nil => simp
  | cons seq seqs ih =>
    obtain ⟨hhead, htail⟩ := List.pairwise_cons.mp h
    by_cases hle : seq ≤ mid
    case pos =>
      rw [List.dropWhile_cons_of_pos (by simpa using hle)]
      exact ih htail
    case neg =>
      grind [List.dropWhile_cons_of_neg]

theorem getLast?_filter (h : l.getLast? = some x) (hp : p x = true) : (l.filter p).getLast? = some x := by
  obtain ⟨init, rfl⟩ := List.getLast?_eq_some_iff.mp h
  simp [hp]

theorem getLast?_dropWhile (h : (l.dropWhile p).getLast? = some x) : l.getLast? = some x := by
  obtain ⟨init, heq⟩ := List.getLast?_eq_some_iff.mp h
  have hsplit := List.takeWhile_append_dropWhile (p := p) (l := l)
  rw [heq] at hsplit
  rw [← hsplit, ← List.append_assoc]
  exact List.getLast?_concat ..

namespace ReplayBuffer

variable {b : ReplayBuffer}
variable {mux : MuxFlowControl} {after : Int}

/-- The numbers in the ring. -/
def ringSeqs (b : ReplayBuffer) : List Int := b.scrollbackRing.map RingEntry.seq

/-- The numbers in the un-acked tail. -/
def tailSeqs (b : ReplayBuffer) : List Int := b.entries.map TailEntry.seq

/-- The numbers of a buffer are in order, split at the acked one. -/
structure Ordered (b : ReplayBuffer) : Prop where
  counted : b.Counted
  ring : Ascending b.ringSeqs
  ring_acked : ∀ seq ∈ b.ringSeqs, seq ≤ b.ackedSeq
  tail : Ascending b.tailSeqs
  tail_unacked : ∀ seq ∈ b.tailSeqs, b.ackedSeq < seq
  tail_last : ∀ seq, b.tailSeqs.getLast? = some seq → seq = b.highestSeq
  ackedSeq_nonneg : 0 ≤ b.ackedSeq
  ackedSeq_le : b.ackedSeq ≤ b.highestSeq

theorem Ordered.all (h : b.Ordered) : Ascending (b.ringSeqs ++ b.tailSeqs) :=
  h.ring.append h.tail h.ring_acked h.tail_unacked

theorem Ordered.last (h : b.Ordered) (hne : b.tailSeqs ≠ []) : b.tailSeqs.getLast? = some b.highestSeq := by
  cases hlast : b.tailSeqs.getLast? with
  | none => exact absurd (List.getLast?_eq_none_iff.mp hlast) hne
  | some seq => rw [h.tail_last seq hlast]

theorem Ordered.tail_le (h : b.Ordered) :
    ∀ seq ∈ b.tailSeqs, seq ≤ b.highestSeq := by
  intro seq hseq
  exact h.tail.le_last (h.last (List.ne_nil_of_mem hseq)) seq hseq

/-! ## §2 Operations -/

theorem Ordered.ringOnly {b' : ReplayBuffer} (h : b.Ordered) (honly : RingOnly b b')
    (hcounted : b'.Counted) (hring : Ascending b'.ringSeqs)
    (hacked : ∀ seq ∈ b'.ringSeqs, seq ≤ b.ackedSeq) : b'.Ordered := by
  have htail : b'.tailSeqs = b.tailSeqs := congrArg (List.map TailEntry.seq) honly.entries
  refine ⟨hcounted, hring, ?_, ?_, ?_, ?_, ?_, ?_⟩
  · rw [honly.ackedSeq]; exact hacked
  · rw [htail]; exact h.tail
  · rw [htail, honly.ackedSeq]; exact h.tail_unacked
  · rw [htail, honly.highestSeq]; exact h.tail_last
  · rw [honly.ackedSeq]; exact h.ackedSeq_nonneg
  · rw [honly.ackedSeq, honly.highestSeq]; exact h.ackedSeq_le

theorem Ordered.append (h : b.Ordered) (bytes : List UInt8) : (b.append bytes).Ordered := by
  have htail : (b.append bytes).tailSeqs = b.tailSeqs ++ [b.highestSeq + 1] := by
    simp [tailSeqs, ReplayBuffer.append]
  have hle := h.ackedSeq_le
  refine ⟨h.counted, h.ring, h.ring_acked, ?_, ?_, ?_, h.ackedSeq_nonneg, ?_⟩
  · rw [htail]
    refine h.tail.append (List.pairwise_singleton ..) h.tail_le ?_
    intro y hy
    rw [List.mem_singleton.mp hy]
    omega
  · rw [htail]
    intro seq hseq
    rcases List.mem_append.mp hseq with hold | hnew
    · exact h.tail_unacked seq hold
    · show b.ackedSeq < seq
      rw [List.mem_singleton.mp hnew]
      omega
  · rw [htail, List.getLast?_concat]
    intro seq hseq
    cases hseq
    rfl
  · show b.ackedSeq ≤ b.highestSeq + 1
    omega

theorem tailSeqs_dropWhile (b : ReplayBuffer) (mid : Int) :
    (b.entries.dropWhile fun e => e.seq ≤ mid).map TailEntry.seq
      = b.tailSeqs.dropWhile fun seq => seq ≤ mid := by
  simp only [tailSeqs, List.dropWhile_map]
  rfl

theorem take_takeWhile_length (p : α → Bool) (l : List α) : l.take (l.takeWhile p).length = l.takeWhile p :=
  (List.prefix_iff_eq_take.mp (List.takeWhile_prefix p)).symm

theorem Ordered.ack (h : b.Ordered) (upTo : Int) : (b.ack upTo).Ordered := by
  rcases ack_cases h.counted upTo with ⟨_, heq⟩ | ⟨hpast, hreleases⟩
  · rwa [heq]
  · have hacked : (b.ack upTo).ackedSeq = min upTo b.highestSeq := hreleases.ackedSeq
    have hhighest : (b.ack upTo).highestSeq = b.highestSeq := hreleases.highestSeq
    have htail : (b.ack upTo).tailSeqs
        = b.tailSeqs.dropWhile fun seq => seq ≤ min upTo b.highestSeq := by
      rw [← tailSeqs_dropWhile, ← drop_takeWhile_length]
      exact congrArg (List.map TailEntry.seq) hreleases.entries
    have hring : (b.ack upTo).ringSeqs.Sublist (b.ringSeqs ++
        (b.entries.takeWhile fun e => e.seq ≤ min upTo b.highestSeq).map TailEntry.seq) := by
      rw [← take_takeWhile_length]
      exact hreleases.seqs
    have hnonneg := h.ackedSeq_nonneg
    refine ⟨hreleases.counted, ?_, ?_, ?_, ?_, ?_, ?_, ?_⟩
    · refine h.all.sublist (hring.trans ?_)
      exact (List.Sublist.refl _).append ((List.takeWhile_sublist _).map _)
    · intro seq hseq
      rw [hacked]
      rcases List.mem_append.mp (hring.subset hseq) with hold | hreleased
      · have hle := h.ring_acked seq hold
        omega
      · obtain ⟨e, he, rfl⟩ := List.mem_map.mp hreleased
        simpa using List.all_eq_true.mp List.all_takeWhile e he
    · rw [htail]
      exact h.tail.sublist (List.dropWhile_sublist _)
    · rw [htail, hacked]
      exact h.tail.lt_of_mem_dropWhile
    · rw [htail, hhighest]
      intro seq hseq
      exact h.tail_last seq (getLast?_dropWhile hseq)
    · omega
    · rw [hacked, hhighest]
      exact Int.min_le_right ..

theorem Ordered.adoptFolded (h : b.Ordered)
    (rendered : List UInt8) {source : RingFoldSource} (hne : source.seqs ≠ [])
    (hseqs : Ascending source.seqs) (hacked : ∀ seq ∈ source.seqs, seq ≤ b.ackedSeq) :
    (b.adoptFoldedRing mux rendered source).2.Ordered := by
  have hsub := seqs_rechunk mux rendered source.seqs true
  rcases adoptFolded_cases mux b rendered source with ⟨_, heq⟩ | ⟨_, heq⟩
  · rwa [heq]
  · have hring : (b.adoptFoldedRing mux rendered source).2.ringSeqs
        = (rechunk mux rendered source.seqs true).map OutputMessage.seq := by
      rw [heq]
      simp [ringSeqs]
    refine h.ringOnly (ringOnly_adoptFolded mux b rendered source) (h.counted.adoptFolded hne) ?_ ?_
    · rw [hring]; exact hseqs.sublist hsub
    · grind

theorem seqs_messages (b : ReplayBuffer) (after : Int) : (b.messages after).map OutputMessage.seq
      = (b.ringSeqs.filter fun seq => after < seq) ++ b.tailSeqs.filter fun seq => after < seq := by
  simp only [messages, ringSeqs, tailSeqs, List.map_append, List.map_map, List.filter_map]
  rfl

/-- While un-acked entries lie above the cursor, the last number of a replay
is the highest. -/
theorem Ordered.last_above (h : b.Ordered) {seq : Int} (hseq : seq ∈ b.tailSeqs) (habove : after < seq) :
    (b.tailSeqs.filter fun seq => after < seq).getLast? = some b.highestSeq := by
  have hle := h.tail_le seq hseq
  refine getLast?_filter (h.last (List.ne_nil_of_mem hseq)) ?_
  simp only [decide_eq_true_eq]
  omega

theorem seqs_labelled (total : Nat) (ms : List OutputMessage) :
    (labelled total ms).map TailEntry.seq = ms.map OutputMessage.seq := by
  induction ms generalizing total with
  | nil => rfl
  | cons m ms ih => simp [labelled, ih]

theorem Counted.adopted (b : ReplayBuffer) (stream : List OutputMessage) : (b.adopted stream).Counted := by
  unfold Counted
  simp only [ReplayBuffer.adopted]
  rw [ringContent_map_messages]
  simp [messageContent, List.length_flatMap]

/-- A stream that rides numbers of a replay above `after`, and covers the
last of them, is as good a history as the one it replaces. -/
theorem Ordered.adopted (h : b.Ordered) {stream : List OutputMessage}
    (hsub : (stream.map OutputMessage.seq).Sublist ((b.messages after).map OutputMessage.seq))
    (hlast : (stream.map OutputMessage.seq).getLast?
      = ((b.messages after).map OutputMessage.seq).getLast?) : (b.adopted stream).Ordered := by
  rw [seqs_messages] at hsub hlast
  have hstream : Ascending (stream.map OutputMessage.seq) :=
    h.all.sublist (hsub.trans (List.filter_sublist.append List.filter_sublist))
  have hring : (b.adopted stream).ringSeqs.Sublist
      ((stream.map OutputMessage.seq).filter fun seq => seq ≤ b.ackedSeq) := by
    rw [List.filter_map]
    by_cases hcap : b.scrollbackBytesCap > 0
    case pos =>
      simp only [ringSeqs, ReplayBuffer.adopted, if_pos hcap, List.map_map]
      exact List.Sublist.refl _
    case neg =>
      simp only [ringSeqs, ReplayBuffer.adopted, if_neg hcap, List.map_nil]
      exact List.nil_sublist _
  have htail : (b.adopted stream).tailSeqs
      = (stream.map OutputMessage.seq).filter fun seq => ¬ seq ≤ b.ackedSeq := by
    simp only [tailSeqs, ReplayBuffer.adopted, seqs_labelled, List.filter_map]
    rfl
  refine ⟨Counted.adopted b stream, hstream.sublist (hring.trans List.filter_sublist), ?_, ?_, ?_,
    ?_, h.ackedSeq_nonneg, h.ackedSeq_le⟩
  · intro seq hseq
    show seq ≤ b.ackedSeq
    simpa using (List.mem_filter.mp (hring.subset hseq)).2
  · rw [htail]
    exact hstream.sublist List.filter_sublist
  · rw [htail]
    intro seq hseq
    have hacked : ¬ seq ≤ b.ackedSeq := by simpa using (List.mem_filter.mp hseq).2
    show b.ackedSeq < seq
    omega
  · rw [htail]
    intro seq hseq
    obtain ⟨hmem, hacked⟩ := List.mem_filter.mp (List.mem_of_getLast? hseq)
    have hlive : b.ackedSeq < seq := by simpa using hacked
    -- an un-acked number of the stream is one of the old tail, so the old tail reaches the top
    have htop : (stream.map OutputMessage.seq).getLast? = some b.highestSeq := by
      rw [hlast]
      rcases List.mem_append.mp (hsub.subset hmem) with hold | hnew
      · have hle := h.ring_acked seq (List.mem_filter.mp hold).1
        omega
      · obtain ⟨hin, habove⟩ := List.mem_filter.mp hnew
        have hend := h.last_above hin (by simpa using habove)
        rw [List.getLast?_append, hend]
        rfl
    have hkept : b.ackedSeq < b.highestSeq := by
      have hle := hstream.le_last htop seq hmem
      omega
    have hend := getLast?_filter (p := fun seq => ¬ seq ≤ b.ackedSeq) htop (by simpa using hkept)
    rw [hend] at hseq
    cases hseq
    rfl

theorem Ordered.evict (h : b.Ordered) : b.evictScrollbackToFit.Ordered := by
  have hsuffix := (seqs_evict h.counted).sublist
  exact h.ringOnly (ringOnly_evict b) h.counted.evict (h.ring.sublist hsuffix)
    fun seq hseq => h.ring_acked seq (hsuffix.subset hseq)

theorem composeSnapshot_cases (mux : MuxFlowControl) (b : ReplayBuffer) (after : Int)
    (rendered : List UInt8) : b.composeSnapshot mux after rendered = b ∨
    b.composeSnapshot mux after rendered = b.adoptSnapshotReplay
      (rechunk mux rendered ((b.messages after).map OutputMessage.seq) true) := by
  unfold composeSnapshot
  dsimp only
  split
  case isTrue => exact .inl rfl
  case isFalse =>
    split
    case isTrue => exact .inl rfl
    case isFalse => exact .inr rfl

theorem Ordered.composeSnapshot (h : b.Ordered)
    (after : Int) (rendered : List UInt8) : (b.composeSnapshot mux after rendered).Ordered := by
  rcases composeSnapshot_cases mux b after rendered with heq | heq
  · rwa [heq]
  · rw [heq]
    exact (h.adopted (seqs_rechunk mux rendered _ true) (getLast?_rechunk mux rendered _)).evict

theorem ackedSeq_composeSnapshot (mux : MuxFlowControl) (b : ReplayBuffer) (after : Int)
    (rendered : List UInt8) : (b.composeSnapshot mux after rendered).ackedSeq = b.ackedSeq := by
  rcases composeSnapshot_cases mux b after rendered with heq | heq
  · rw [heq]
  · rw [heq]
    exact (ringOnly_evict _).ackedSeq

end ReplayBuffer

namespace ReplaySession

open ReplayBuffer

variable {s : ReplaySession}
variable {mux : MuxFlowControl}

/-- The buffer is in order, and so is every fold captured from it. -/
structure Ordered (s : ReplaySession) : Prop where
  buffer : s.buffer.Ordered
  captured : ∀ source ∈ s.captured, source.seqs ≠ [] ∧ Ascending source.seqs ∧
    ∀ seq ∈ source.seqs, seq ≤ s.buffer.ackedSeq

theorem Ordered.buffer_step (h : s.Ordered) {b : ReplayBuffer}
    {appended : List (List UInt8)} (hb : b.Ordered) (hacked : s.buffer.ackedSeq ≤ b.ackedSeq) :
    Ordered ⟨b, s.captured, appended⟩ := by
  refine ⟨hb, ?_⟩
  intro source hsource
  obtain ⟨hne, hascending, hle⟩ := h.captured source hsource
  exact ⟨hne, hascending, fun seq hseq => Int.le_trans (hle seq hseq) hacked⟩

theorem Ordered.captureFold (h : s.Ordered) :
    Ordered { s with captured := s.captured ++ s.buffer.ringFoldSource.toList } := by
  refine ⟨h.buffer, ?_⟩
  intro source hsource
  rcases List.mem_append.mp hsource with hold | hnew
  · exact h.captured source hold
  · rcases ringFoldSource_cases s.buffer with ⟨_, hnone⟩ | ⟨hring, hsome⟩
    · simp [hnone] at hnew
    · simp only [hsome, Option.toList_some, List.mem_singleton] at hnew
      rw [hnew]
      exact ⟨by simpa using hring, h.buffer.ring, h.buffer.ring_acked⟩

theorem ordered_step (op : ReplayOp) (h : s.Ordered) : (step mux s op).Ordered := by
  cases op with
  | append bytes => exact h.buffer_step (h.buffer.append bytes) (Int.le_refl _)
  | ack upTo => exact h.buffer_step (h.buffer.ack upTo) (ackedSeq_le_ack h.buffer.counted upTo)
  | setClientOnline online =>
    exact h.buffer_step (h.buffer.ringOnly ⟨rfl, rfl, rfl, rfl, rfl, rfl, rfl⟩
      h.buffer.counted h.buffer.ring h.buffer.ring_acked) (Int.le_refl _)
  | setPendingAltReopen reopen =>
    exact h.buffer_step (h.buffer.ringOnly ⟨rfl, rfl, rfl, rfl, rfl, rfl, rfl⟩
      h.buffer.counted h.buffer.ring h.buffer.ring_acked) (Int.le_refl _)
  | captureFold => exact h.captureFold
  | adoptFold index rendered =>
    rcases adoptFold_cases mux s index rendered with ⟨_, heq⟩ | ⟨source, hget, heq⟩
    · rwa [heq]
    · obtain ⟨hne, hascending, hacked⟩ := h.captured source (List.mem_of_getElem? hget)
      rw [heq]
      refine h.buffer_step (h.buffer.adoptFolded rendered hne hascending hacked) ?_
      exact Int.le_of_eq (ringOnly_adoptFolded mux s.buffer rendered source).ackedSeq.symm

theorem ordered_paneStep (op : PaneOp) (h : s.Ordered) : (paneStep mux s op).Ordered := by
  cases op with
  | replay op => exact ordered_step op h
  | composeSnapshot after rendered =>
    exact h.buffer_step (h.buffer.composeSnapshot after rendered)
      (Int.le_of_eq (ackedSeq_composeSnapshot mux s.buffer after rendered).symm)

theorem ordered_start (maxBackup offlineGate scrollback : Nat)
    (distiller : Option (List UInt8 → List UInt8)) :
    (start { withCaps maxBackup offlineGate scrollback with
      scrollbackDistiller := distiller }).Ordered := by
  refine ⟨⟨rfl, List.Pairwise.nil, ?_, List.Pairwise.nil, ?_, ?_, Int.le_refl 0, Int.le_refl 0⟩, ?_⟩
  · simp [start, ringSeqs, withCaps]
  · simp [start, tailSeqs, withCaps]
  · simp [start, tailSeqs, withCaps]
  · simp [start]

end ReplaySession

/-! ## §3 Replaying -/

namespace ReplayBuffer

variable {b : ReplayBuffer}
variable {e : TailEntry} {mux : MuxFlowControl}

/-- The un-acked entries above a cursor, as they are. -/
def rawTail (b : ReplayBuffer) (cursor : Int) : List OutputMessage :=
  (b.entries.filter fun e => e.seq > cursor).map fun e => ⟨e.seq, e.bytes⟩

theorem seqs_rawTail (b : ReplayBuffer) (cursor : Int) :
    (b.rawTail cursor).map OutputMessage.seq = b.tailSeqs.filter fun seq => cursor < seq := by
  simp only [rawTail, tailSeqs, List.map_map, List.filter_map]
  rfl

/-- The paths of `replay`: raw without a distiller; ring and tail as one
stream for a fresh client; and else something on ring numbers before the
raw tail. -/
theorem replay_cases (mux : MuxFlowControl) (b : ReplayBuffer) (cursor : Int) :
    (b.scrollbackDistiller = none ∧ b.replay mux cursor = b.messages cursor) ∨
    (b.scrollbackDistiller ≠ none ∧ cursor = 0 ∧ b.entries ≠ [] ∧
      ∃ data, b.replay mux cursor
        = rechunk mux data ((b.ringSeqs.filter fun seq => cursor < seq) ++ b.tailSeqs) true) ∨
    (b.scrollbackDistiller ≠ none ∧ ∃ history : List OutputMessage,
      (history.map OutputMessage.seq).Sublist (b.ringSeqs.filter fun seq => cursor < seq) ∧
      b.replay mux cursor = history ++ b.rawTail cursor) := by
  have hseqs : (b.scrollbackRing.filter fun e => e.seq > cursor).map RingEntry.seq
      = b.ringSeqs.filter fun seq => cursor < seq := by
    simp only [ringSeqs, List.filter_map]
    rfl
  unfold replay
  cases b.scrollbackDistiller with
  | none => exact .inl ⟨rfl, rfl⟩
  | some distiller =>
    dsimp only
    rw [hseqs]
    by_cases hcold : cursor = 0 ∧ b.entries ≠ []
    case pos =>
      rw [if_pos hcold]
      exact .inr (.inl ⟨by simp, hcold.1, hcold.2, _, rfl⟩)
    case neg =>
      refine .inr (.inr ⟨by simp, ?_⟩)
      rw [if_neg hcold]
      split
      case isTrue => exact ⟨[], List.nil_sublist _, rfl⟩
      case isFalse => exact ⟨_, seqs_rechunk mux _ _ false, rfl⟩

theorem Ordered.seqs_replay (mux : MuxFlowControl) (h : b.Ordered)
    (cursor : Int) : ((b.replay mux cursor).map OutputMessage.seq).Sublist
      ((b.ringSeqs.filter fun seq => cursor < seq) ++
        b.tailSeqs.filter fun seq => cursor < seq) := by
  rcases replay_cases mux b cursor with
    ⟨_, heq⟩ | ⟨_, hzero, _, data, heq⟩ | ⟨_, history, hsub, heq⟩
  · exact (heq.symm ▸ seqs_messages b cursor) ▸ List.Sublist.refl _
  · have hnonneg := h.ackedSeq_nonneg
    have hall : (b.tailSeqs.filter fun seq => cursor < seq) = b.tailSeqs := by
      refine List.filter_eq_self.mpr ?_
      intro seq hseq
      have hlt := h.tail_unacked seq hseq
      simp only [decide_eq_true_eq]
      omega
    rw [heq, hall]
    exact seqs_rechunk mux data _ true
  · rw [heq, List.map_append, seqs_rawTail]
    exact hsub.append (List.Sublist.refl _)

/-- With un-acked entries above the cursor, a replay ends on the highest
number. -/
theorem Ordered.getLast?_replay (h : b.Ordered)
    {cursor : Int} (he : e ∈ b.entries) (habove : cursor < e.seq) :
    ((b.replay mux cursor).map OutputMessage.seq).getLast? = some b.highestSeq := by
  have hseq : e.seq ∈ b.tailSeqs := List.mem_map_of_mem he
  have htop := h.last_above hseq habove
  rcases replay_cases mux b cursor with
    ⟨_, heq⟩ | ⟨_, _, _, data, heq⟩ | ⟨_, history, hsub, heq⟩
  · rw [heq, seqs_messages, List.getLast?_append, htop]
    rfl
  · rw [heq, getLast?_rechunk, List.getLast?_append, h.last (List.ne_nil_of_mem hseq)]
    rfl
  · rw [heq, List.map_append, seqs_rawTail, List.getLast?_append, htop]
    rfl

theorem Ordered.ack_highest (h : b.Ordered) (he : e ∈ b.entries) : (b.ack b.highestSeq).entries = [] := by
  have hle : ∀ e ∈ b.entries, e.seq ≤ b.highestSeq := fun e he =>
    h.tail_le e.seq (List.mem_map_of_mem he)
  have hpast : b.ackedSeq < b.highestSeq :=
    Int.lt_of_lt_of_le (h.tail_unacked e.seq (List.mem_map_of_mem he)) (hle e he)
  rcases ack_cases h.counted b.highestSeq with ⟨hstale, _⟩ | ⟨_, hreleases⟩
  · omega
  · have hentries := hreleases.entries
    simp only [advance, drop_takeWhile_length, Int.min_self] at hentries
    rw [hentries]
    refine List.eq_nil_iff_forall_not_mem.mpr ?_
    intro e hkept
    have hseq : e.seq ∈ b.tailSeqs.dropWhile fun seq => seq ≤ b.highestSeq := by
      rw [← tailSeqs_dropWhile]
      exact List.mem_map_of_mem hkept
    have hlt := h.tail.lt_of_mem_dropWhile e.seq hseq
    have hin := hle e ((List.dropWhile_sublist _).subset hkept)
    omega

theorem messageContent_messages (b : ReplayBuffer) (cursor : Int) : messageContent (b.messages cursor)
      = ringContent (b.scrollbackRing.filter fun e => e.seq > cursor) ++
        tailContent (b.entries.filter fun e => e.seq > cursor) := by
  simp [messageContent, messages, ringContent, tailContent, List.flatMap_map]

/-- What a replay above a cursor has to be: in order and above the cursor,
ring numbers before un-acked ones, up to the top of the tail, and without a
distiller the retained bytes as they are. -/
structure Replays (b : ReplayBuffer) (cursor : Int) (sent : List OutputMessage) : Prop where
  ascending : Ascending (sent.map OutputMessage.seq)
  above : ∀ m ∈ sent, cursor < m.seq
  split : ∃ scrollback live, sent = scrollback ++ live ∧
    (∀ m ∈ scrollback, m.seq ∈ b.ringSeqs) ∧ (∀ m ∈ live, m.seq ∈ b.tailSeqs) ∧
    ∀ m ∈ scrollback, ∀ m' ∈ live, m.seq < m'.seq
  top : (∃ e ∈ b.entries, cursor < e.seq) →
    (sent.map OutputMessage.seq).getLast? = some b.highestSeq ∧ (b.ack b.highestSeq).entries = []
  raw : b.scrollbackDistiller = none → messageContent sent
    = ringContent (b.scrollbackRing.filter fun e => e.seq > cursor) ++
      tailContent (b.entries.filter fun e => e.seq > cursor)

theorem Ordered.replays (h : b.Ordered) (cursor : Int) : Replays b cursor (b.replay mux cursor) := by
  have hsub := h.seqs_replay mux cursor
  refine ⟨h.all.sublist (hsub.trans (List.filter_sublist.append List.filter_sublist)), ?_, ?_, ?_, ?_⟩
  · intro m hm
    have hmem := hsub.subset (List.mem_map_of_mem hm)
    simp only [List.mem_append, List.mem_filter, decide_eq_true_eq] at hmem
    rcases hmem with ⟨_, habove⟩ | ⟨_, habove⟩ <;> exact habove
  · obtain ⟨low, high, heq, hlow, hhigh⟩ := List.sublist_append_iff.mp hsub
    obtain ⟨scrollback, live, hsplit, rfl, rfl⟩ := List.map_eq_append_iff.mp heq
    have hring : ∀ m ∈ scrollback, m.seq ∈ b.ringSeqs := fun m hm =>
      (List.mem_filter.mp (hlow.subset (List.mem_map_of_mem hm))).1
    have htail : ∀ m ∈ live, m.seq ∈ b.tailSeqs := fun m hm =>
      (List.mem_filter.mp (hhigh.subset (List.mem_map_of_mem hm))).1
    refine ⟨scrollback, live, hsplit, hring, htail, ?_⟩
    intro m hm m' hm'
    exact Int.lt_of_le_of_lt (h.ring_acked m.seq (hring m hm)) (h.tail_unacked m'.seq (htail m' hm'))
  · rintro ⟨e, he, habove⟩
    exact ⟨h.getLast?_replay he habove, h.ack_highest he⟩
  · intro hnone
    rcases replay_cases mux b cursor with ⟨_, heq⟩ | ⟨hsome, _⟩ | ⟨hsome, _⟩
    · rw [heq, messageContent_messages]
    · exact absurd hnone hsome
    · exact absurd hnone hsome

end ReplayBuffer

/-- Whatever a pane has done to its buffer, whatever distiller it has and
whatever cursor the client names, `replay` sends what it has to. -/
theorem replay_ordered_and_covering (mux : MuxFlowControl)
    (maxBackup offlineGate scrollback : Nat) (distiller : Option (List UInt8 → List UInt8))
    (ops : List PaneOp) (cursor : Int) :
    let fresh := ReplaySession.start { ReplayBuffer.withCaps maxBackup offlineGate scrollback with
      scrollbackDistiller := distiller }
    let b := (run (ReplaySession.paneStep mux) fresh ops).buffer
    b.Replays cursor (b.replay mux cursor) := by
  intro fresh b
  have hfresh := ReplaySession.ordered_start maxBackup offlineGate scrollback distiller
  have hordered : (run (ReplaySession.paneStep mux) fresh ops).Ordered :=
    run_invariant ReplaySession.Ordered (fun _ op => ReplaySession.ordered_paneStep op) hfresh ops
  exact hordered.buffer.replays cursor

end SlopDesk.Wire
