/-
SlopDesk.Video.AudioJitterRuns — what the audio stage plays, and the one
way it plays a frame twice.

Every frame that began to play, was dropped or is pending is a piece of the
output (`Piece`): so many samples from its start. The pieces are in the
order of their sequences, each ahead of the one before, and the output is
their samples one after the other (`Plays`). A push keeps this because a
frame at or behind the newest piece is late; but a clear that abandons a
half-played head leaves the frontier behind that head, and then a frame at
or behind it is not late.

§1 pieces, and what playing does to them. §2 a frame's place. §3 the runs.
-/
import Mathlib.Algebra.GroupWithZero.Nat
import Mathlib.Data.List.Nodup
import Mathlib.Data.List.Chain
import SlopDesk.Base.Runs
import SlopDesk.Video.AudioJitter

namespace SlopDesk.Video

open SlopDesk.Base

variable {α : Type u}

/-! ## §1 Pieces -/

/-- The first samples of a pushed frame, with which push it was. -/
structure Piece (α : Type u) where
  index : Nat
  block : Block α
  count : Nat

/-- The samples of a piece. -/
def Piece.samples (piece : Piece α) : List α := piece.block.samples.take piece.count

/-- The first is behind the second. -/
def Piece.Behind (piece piece' : Piece α) : Prop :=
  distanceWrapped piece.block.seq piece'.block.seq < 0

/-- The stage against the pieces that are over, the pieces that are
pending, and the samples put out. -/
structure Plays (s : AudioJitterBuffer α) (order pending : List (Piece α)) (emitted : List α) : Prop where
  out : emitted = (order ++ pending).flatMap Piece.samples
  consumed : s.consumedBlocks ≤ s.blocks.length
  blocks : pending.map Piece.block = s.blocks.drop s.consumedBlocks
  full : ∀ piece ∈ pending, piece.block.samples ≠ []
  head : ∀ piece rest, pending = piece :: rest →
    piece.count = s.headSampleOffset ∧ s.headSampleOffset < piece.block.samples.length
  rest : ∀ piece ∈ pending.tail, piece.count = 0
  idle : pending = [] → s.headSampleOffset = 0

/-- Nothing but how much of them was played. -/
def Piece.key (piece : Piece α) : Nat × Block α := (piece.index, piece.block)

namespace Plays

variable {s : AudioJitterBuffer α} {order pending : List (Piece α)} {emitted : List α}
variable {piece : Piece α} {rest : List (Piece α)} {s' : AudioJitterBuffer α}

theorem flatMap_tail (h : Plays s order (piece :: rest) emitted) : rest.flatMap Piece.samples = [] := by
  refine List.flatMap_eq_nil_iff.mpr fun other hother => ?_
  simp [Piece.samples, h.rest other hother]

theorem finished (h : Plays s order (piece :: rest) emitted)
    (count : Nat) (hconsumed : s'.consumedBlocks ≤ s'.blocks.length)
    (hblocks : s'.blocks.drop s'.consumedBlocks = rest.map Piece.block) (hoffset : s'.headSampleOffset = 0) :
    Plays s' (order ++ [{ piece with count }]) rest
      (order.flatMap Piece.samples ++ piece.block.samples.take count) where
  out := by
    rw [List.flatMap_append, List.flatMap_append, h.flatMap_tail]
    simp [Piece.samples]
  consumed := hconsumed
  blocks := hblocks.symm
  full other hother := h.full other (List.mem_cons_of_mem _ hother)
  head other rest' heq := by
    subst heq
    have hzero := h.rest other (List.mem_cons_self ..)
    have hfull := h.full other (List.mem_cons_of_mem _ (List.mem_cons_self ..))
    rw [hzero, hoffset]
    exact ⟨rfl, List.length_pos_iff.mpr hfull⟩
  rest other hother := h.rest other (List.mem_of_mem_tail hother)
  idle _ := hoffset

theorem out_eq (h : Plays s order (piece :: rest) emitted) :
    emitted = order.flatMap Piece.samples ++ piece.block.samples.take s.headSampleOffset := by
  rw [h.out, List.flatMap_append, List.flatMap_cons, h.flatMap_tail, List.append_nil, Piece.samples,
    (h.head piece rest rfl).1]

theorem begun (h : Plays s order (piece :: rest) emitted)
    {count : Nat} (hcount : count < piece.block.samples.length) :
    Plays { s with headSampleOffset := count } order ({ piece with count } :: rest)
      (order.flatMap Piece.samples ++ piece.block.samples.take count) where
  out := by
    rw [List.flatMap_append, List.flatMap_cons, h.flatMap_tail]
    simp [Piece.samples]
  consumed := h.consumed
  blocks := h.blocks
  full other hother := by
    rcases List.mem_cons.mp hother with rfl | hother
    · exact h.full piece (List.mem_cons_self ..)
    · exact h.full other (List.mem_cons_of_mem _ hother)
  head other rest' heq := by
    obtain ⟨rfl, rfl⟩ := List.cons.inj heq
    exact ⟨rfl, hcount⟩
  rest other hother := h.rest other hother
  idle hnone := by simp at hnone

/-- Copying out: the output goes on, the pieces stay the same but for their
counts, and when it stops between two frames the frontier is at the last of
them. -/
theorem copyFrom {list : List (Block α)} (h : Plays s order pending emitted)
    (hlist : s.blocks.drop s.consumedBlocks = list) (room : Nat) :
    ∃ order' pending', Plays (AudioJitterBuffer.copyFrom list room s).2 order' pending'
        (emitted ++ (AudioJitterBuffer.copyFrom list room s).1) ∧
      (order' ++ pending').map Piece.key = (order ++ pending).map Piece.key ∧
      ((AudioJitterBuffer.copyFrom list room s).1 = [] →
        (AudioJitterBuffer.copyFrom list room s).2 = s ∧ order' = order) ∧
      ((AudioJitterBuffer.copyFrom list room s).1 ≠ [] →
        (AudioJitterBuffer.copyFrom list room s).2.headSampleOffset = 0 →
        (AudioJitterBuffer.copyFrom list room s).2.playFrontier = order'.getLast?.map (·.block.seq)) := by
  induction list generalizing s order pending emitted room with
  | nil =>
    grind [AudioJitterBuffer.copyFrom]
  | cons block list ih =>
    obtain ⟨piece, rest, rfl, rfl, hrest⟩ := List.map_eq_cons_iff.mp (h.blocks.trans hlist)
    obtain ⟨hcount, hoffset⟩ := h.head piece rest rfl
    unfold AudioJitterBuffer.copyFrom
    by_cases hroom : room = 0
    · grind
    rw [if_neg hroom, if_neg (Nat.not_lt.mpr (Nat.le_of_lt hoffset))]
    dsimp only
    generalize hsource : (piece.block.samples.drop s.headSampleOffset).take room = source
    have hlength : source.length = min room (piece.block.samples.length - s.headSampleOffset) := by
      rw [← hsource, List.length_take, List.length_drop]
    have hne : source ≠ [] := List.length_pos_iff.mp (by omega)
    -- what the head has given by now
    have hout : emitted ++ source = order.flatMap Piece.samples ++
        piece.block.samples.take (s.headSampleOffset + source.length) := by
      have hsame : (piece.block.samples.drop s.headSampleOffset).take source.length = source := by
        simp [← hsource]
      rw [h.out_eq, List.take_add, hsame, List.append_assoc]
    split
    · have hlt : s.consumedBlocks < s.blocks.length := by
        grind [List.length_drop, List.length_cons]
      have hdrop : s.blocks.drop (s.consumedBlocks + 1) = list := by
        rw [← List.tail_drop, hlist, List.tail_cons]
      have hplays : Plays { s with
          playFrontier := some piece.block.seq
          consumedBlocks := s.consumedBlocks + 1
          headSampleOffset := 0 }
          (order ++ [{ piece with count := s.headSampleOffset + source.length }]) rest (emitted ++ source) :=
        hout ▸ h.finished (s.headSampleOffset + source.length) hlt (hdrop.trans hrest.symm) rfl
      obtain ⟨order', pending', hplays', hkeys, hnone, hsome⟩ := ih hplays hdrop (room - source.length)
      refine ⟨order', pending', by rw [← List.append_assoc]; exact hplays',
        hkeys.trans (by simp [Piece.key]), fun hnil => absurd (List.append_eq_nil_iff.mp hnil).1 hne,
        fun _ hzero => ?_⟩
      by_cases hmore : (AudioJitterBuffer.copyFrom list (room - source.length) { s with
          playFrontier := some piece.block.seq
          consumedBlocks := s.consumedBlocks + 1
          headSampleOffset := 0 }).1 = []
      · grind
      · exact hsome hmore hzero
    · rename_i hmore
      have hplays := h.begun (Nat.lt_of_not_le hmore)
      rw [← hout] at hplays
      refine ⟨order, _, hplays, by simp [Piece.key], fun hnil => absurd hnil hne, fun _ hzero => ?_⟩
      change s.headSampleOffset + source.length = 0 at hzero
      omega

theorem same (h : Plays s order pending emitted) (hblocks : s'.blocks = s.blocks)
    (hconsumed : s'.consumedBlocks = s.consumedBlocks) (hoffset : s'.headSampleOffset = s.headSampleOffset) :
    Plays s' order pending emitted where
  out := h.out
  consumed := by
    rw [hconsumed, hblocks]
    exact h.consumed
  blocks := by
    rw [hconsumed, hblocks]
    exact h.blocks
  full := h.full
  head := by
    rw [hoffset]
    exact h.head
  rest := h.rest
  idle := by
    rw [hoffset]
    exact h.idle

theorem reclaim (h : Plays s order pending emitted) : Plays s.reclaim order pending emitted where
  out := h.out
  consumed := Nat.zero_le _
  blocks := h.blocks
  full := h.full
  head := h.head
  rest := h.rest
  idle := h.idle

theorem skip (h : Plays s order (piece :: rest) emitted) (hconsumed : s'.consumedBlocks ≤ s'.blocks.length)
    (hblocks : s'.blocks.drop s'.consumedBlocks = rest.map Piece.block) (hoffset : s'.headSampleOffset = 0) :
    Plays s' (order ++ [piece]) rest emitted := by
  have hfinished := h.finished s.headSampleOffset hconsumed hblocks hoffset
  rw [← h.out_eq, ← (h.head piece rest rfl).1] at hfinished
  exact hfinished

end Plays

/-! ## §2 A frame's place -/

/-- The walk stops behind a frame it is not behind, and every frame it
passed is ahead. -/
theorem insertIndex_spec (seq : UInt32) {blocks : List (Block α)} {walked : Nat} (h : walked ≤ blocks.length) :
    AudioJitterBuffer.insertIndex seq blocks walked ≤ walked ∧
      (∀ block ∈ (blocks.take (AudioJitterBuffer.insertIndex seq blocks walked)).getLast?,
        0 ≤ distanceWrapped seq block.seq) ∧
      ∀ block, AudioJitterBuffer.insertIndex seq blocks walked < walked →
        blocks[AudioJitterBuffer.insertIndex seq blocks walked]? = some block →
        distanceWrapped seq block.seq < 0 := by
  induction walked with
  | zero => simp [AudioJitterBuffer.insertIndex]
  | succ index ih =>
    obtain ⟨hle, hbehind, hahead⟩ := ih (Nat.le_of_succ_le h)
    have hblock : blocks[index]? = some blocks[index] := List.getElem?_eq_getElem h
    unfold AudioJitterBuffer.insertIndex
    rw [hblock]
    dsimp only
    by_cases hpass : distanceWrapped seq (blocks[index]).seq < 0
    · grind
    · rw [if_neg hpass]
      refine ⟨Nat.le_refl _, fun block hmem => ?_, fun block hlt => absurd hlt (Nat.lt_irrefl _)⟩
      rw [List.take_succ_eq_append_getElem h, List.getLast?_concat, Option.mem_some_iff] at hmem
      exact hmem ▸ Int.not_lt.mp hpass

theorem isChain_insert {β : Type*} {R : β → β → Prop} {before after : List β} {x : β}
    (h : (before ++ after).IsChain R) (hbefore : ∀ y ∈ before.getLast?, R y x)
    (hafter : ∀ y ∈ after.head?, R x y) : (before ++ x :: after).IsChain R := by
  obtain ⟨hfront, hback, -⟩ := List.isChain_append.mp h
  refine List.isChain_append.mpr ⟨hfront, List.isChain_cons.mpr ⟨hafter, hback⟩, fun y hy z hz => ?_⟩
  obtain rfl : x = z := by simpa using hz
  exact hbefore y hy

theorem behind_of_ahead {x y : UInt32} (h : 0 < distanceWrapped x y) : distanceWrapped y x < 0 := by
  rw [distance_symm (by omega)]
  omega

namespace Plays

variable {s : AudioJitterBuffer α} {order pending : List (Piece α)} {emitted : List α}

theorem insertIndex_pos {piece : Piece α} {rest : List (Piece α)} (h : Plays s order (piece :: rest) emitted)
    (hzero : s.consumedBlocks = 0) (hbegun : 0 < s.headSampleOffset) {seq : UInt32}
    (hlate : s.isLate seq = false) : 0 < AudioJitterBuffer.insertIndex seq s.blocks s.blocks.length := by
  have hblocks := h.blocks
  rw [hzero, List.drop_zero, List.map_cons] at hblocks
  have hhead : s.blocks[0]? = some piece.block := by simp [← hblocks]
  have hlength : 0 < s.blocks.length := by simp [← hblocks]
  refine Nat.pos_of_ne_zero fun hfront => ?_
  have hahead := (insertIndex_spec seq (Nat.le_refl s.blocks.length)).2.2 piece.block
  rw [hfront] at hahead
  have hbehind := hahead hlength hhead
  simp [AudioJitterBuffer.isLate, AudioJitterBuffer.effectiveFrontier, AudioJitterBuffer.head?, hzero, hhead,
    hbegun] at hlate
  omega

theorem quiet (h : Plays s order pending emitted) (hoffset : s.headSampleOffset = 0) :
    ∀ piece ∈ pending, piece.count = 0 := by
  intro piece hpiece
  cases pending with
  | nil => simp at hpiece
  | cons first rest =>
    rcases List.mem_cons.mp hpiece with rfl | hrest
    · exact (h.head piece rest rfl).1.trans hoffset
    · exact h.rest piece hrest

/-- A frame that is taken: the pieces with a new one among the pending,
behind what comes after it and ahead of what comes before. -/
theorem inserted (h : Plays s order pending emitted) (hzero : s.consumedBlocks = 0) (block : Block α)
    (hsamples : block.samples ≠ []) (hnew : ∀ other ∈ s.blocks, other.seq ≠ block.seq)
    (hlate : s.isLate block.seq = false)
    (hlast : s.headSampleOffset = 0 → ∀ piece ∈ order.getLast?, 0 < distanceWrapped block.seq piece.block.seq)
    (index : Nat) :
    ∃ front back, pending = front ++ back ∧
      Plays (s.inserted block) order (front ++ ⟨index, block, 0⟩ :: back) emitted ∧
      (∀ piece ∈ (order ++ front).getLast?, distanceWrapped piece.block.seq block.seq < 0) ∧
      ∀ piece ∈ back.head?, distanceWrapped block.seq piece.block.seq < 0 := by
  have hblocks := h.blocks
  rw [hzero, List.drop_zero] at hblocks
  obtain ⟨hle, hbehind, hahead⟩ := insertIndex_spec block.seq (Nat.le_refl s.blocks.length)
  have hpos : 0 < s.headSampleOffset →
      0 < AudioJitterBuffer.insertIndex block.seq s.blocks s.blocks.length := by
    intro hbegun
    cases pending with
    | nil => exact absurd (h.idle rfl) (Nat.ne_of_gt hbegun)
    | cons piece rest => exact h.insertIndex_pos hzero hbegun hlate
  have hstate : (s.inserted block).blocks =
      s.blocks.take (AudioJitterBuffer.insertIndex block.seq s.blocks s.blocks.length) ++ block ::
        s.blocks.drop (AudioJitterBuffer.insertIndex block.seq s.blocks s.blocks.length) := rfl
  generalize AudioJitterBuffer.insertIndex block.seq s.blocks s.blocks.length = place at *
  have hsplit : pending = pending.take place ++ pending.drop place := (List.take_append_drop ..).symm
  -- in front of everything only while nothing has begun to play
  have hfront : pending.take place = [] → s.headSampleOffset = 0 := by
    grind
  refine ⟨pending.take place, pending.drop place, hsplit,
    ⟨?_, hzero ▸ Nat.zero_le _, ?_, fun piece hpiece => ?_, fun piece rest heq => ?_, fun piece hpiece => ?_,
      fun hnil => by simp at hnil⟩, fun piece hpiece => ?_, fun piece hpiece => ?_⟩
  · have hnone : Piece.samples ⟨index, block, 0⟩ = [] := by simp [Piece.samples]
    have hjoin : (pending.take place).flatMap Piece.samples ++ (pending.drop place).flatMap Piece.samples =
        pending.flatMap Piece.samples := by
      rw [← List.flatMap_append, List.take_append_drop]
    rw [h.out, List.flatMap_append, List.flatMap_append, List.flatMap_append, List.flatMap_cons, hnone,
      List.nil_append, hjoin]
  · change _ = (s.inserted block).blocks.drop s.consumedBlocks
    rw [hzero, hstate, ← hblocks, List.drop_zero, List.map_append, List.map_cons, List.map_take, List.map_drop]
  · rcases List.mem_append.mp hpiece with htake | hrest
    · exact h.full piece (List.mem_of_mem_take htake)
    · rcases List.mem_cons.mp hrest with rfl | hdrop
      · exact hsamples
      · exact h.full piece (List.mem_of_mem_drop hdrop)
  · cases htake : pending.take place with
    | nil =>
      rw [htake] at heq
      obtain ⟨rfl, -⟩ := List.cons.inj heq
      change 0 = s.headSampleOffset ∧ s.headSampleOffset < block.samples.length
      rw [hfront htake]
      exact ⟨rfl, List.length_pos_iff.mpr hsamples⟩
    | cons first others =>
      rw [htake] at heq hsplit
      obtain ⟨rfl, -⟩ := List.cons.inj heq
      exact h.head first (others ++ pending.drop place) hsplit
  · cases htake : pending.take place with
    | nil =>
      rw [htake] at hpiece
      exact h.quiet (hfront htake) piece (List.mem_of_mem_drop hpiece)
    | cons first others =>
      rw [htake] at hpiece hsplit
      have hrest : ∀ other ∈ others ++ pending.drop place, other.count = 0 := by
        intro other hother
        refine h.rest other ?_
        rw [hsplit]
        exact hother
      rcases List.mem_append.mp hpiece with hothers | hback
      · exact hrest piece (List.mem_append_left _ hothers)
      · grind
  · rw [List.getLast?_append] at hpiece
    cases hend : (pending.take place).getLast? with
    | none =>
      rw [hend] at hpiece
      exact behind_of_ahead (hlast (hfront (List.getLast?_eq_none_iff.mp hend)) piece hpiece)
    | some other =>
      obtain rfl : other = piece := by simpa [hend] using hpiece
      have hblock : other.block ∈ (s.blocks.take place).getLast? := by
        rw [← hblocks, ← List.map_take, List.getLast?_map, hend]
        rfl
      have hmem : other.block ∈ s.blocks := List.mem_of_mem_take (List.mem_of_mem_getLast? hblock)
      have hne : distanceWrapped block.seq other.block.seq ≠ 0 := fun heq =>
        hnew other.block hmem (distanceWrapped_eq_zero.mp heq).symm
      have hle := hbehind other.block hblock
      exact behind_of_ahead (by omega)
  · rw [List.head?_drop] at hpiece
    have hblock : s.blocks[place]? = some piece.block := by
      rw [← hblocks, List.getElem?_map, hpiece]
      rfl
    exact hahead piece.block (List.getElem?_eq_some_iff.mp hblock).1 hblock

theorem dropPastHighWater (fuel : Nat) (h : Plays s order pending emitted) (hzero : s.consumedBlocks = 0) :
    ∃ order' pending', Plays (s.dropPastHighWater fuel) order' pending' emitted ∧
      order' ++ pending' = order ++ pending ∧
      ((s.dropPastHighWater fuel).stats.overflowDropped = s.stats.overflowDropped →
        s.dropPastHighWater fuel = s ∧ order' = order) ∧
      s.stats.overflowDropped ≤ (s.dropPastHighWater fuel).stats.overflowDropped ∧
      (s.stats.overflowDropped < (s.dropPastHighWater fuel).stats.overflowDropped →
        (s.dropPastHighWater fuel).headSampleOffset = 0 ∧
        (s.dropPastHighWater fuel).playFrontier = order'.getLast?.map (·.block.seq)) := by
  induction fuel generalizing s order pending with
  | zero =>
    exact ⟨order, pending, h, rfl, fun _ => ⟨rfl, rfl⟩, Nat.le_refl _, fun hlt => absurd hlt (Nat.lt_irrefl _)⟩
  | succ fuel ih =>
    unfold AudioJitterBuffer.dropPastHighWater
    split
    · cases hblocks : s.blocks with
      | nil =>
        exact ⟨order, pending, h, rfl, fun _ => ⟨rfl, rfl⟩, Nat.le_refl _,
          fun hlt => absurd hlt (Nat.lt_irrefl _)⟩
      | cons dropped left =>
        have hpieces := h.blocks
        rw [hzero, List.drop_zero, hblocks] at hpieces
        obtain ⟨piece, rest, rfl, rfl, hrest⟩ := List.map_eq_cons_iff.mp hpieces
        have hskip : Plays { s with
            blocks := left
            headSampleOffset := 0
            playFrontier := some piece.block.seq
            stats := { s.stats with overflowDropped := s.stats.overflowDropped + 1 } }
            (order ++ [piece]) rest emitted :=
          h.skip (by simp [hzero]) (by simp [hzero, hrest]) rfl
        obtain ⟨order', pending', hplays, hsame, hstay, hmore, hfrontier⟩ := ih hskip hzero
        refine ⟨order', pending', hplays, by simpa using hsame, fun heq => ?_, ?_, fun _ => ?_⟩
        · dsimp only at heq hmore
          omega
        · dsimp only at hmore ⊢
          omega
        · grind
    · exact ⟨order, pending, h, rfl, fun _ => ⟨rfl, rfl⟩, Nat.le_refl _,
        fun hlt => absurd hlt (Nat.lt_irrefl _)⟩

end Plays

namespace AudioJitterBuffer

variable {s : AudioJitterBuffer α} {seq : UInt32} {samples : List α}

/-- What a push does not take: no samples, a frame that is pending, or one
at or behind the effective frontier. -/
def refuses (s : AudioJitterBuffer α) (seq : UInt32) (samples : List α) : Bool :=
  samples.isEmpty || (s.blocks.drop s.consumedBlocks).any (·.seq = seq) || s.isLate seq

theorem isLate_reclaim (s : AudioJitterBuffer α) (seq : UInt32) : s.reclaim.isLate seq = s.isLate seq := by
  have hhead : s.reclaim.head? = s.head? := by simp [head?, reclaim]
  have hfrontier : s.reclaim.effectiveFrontier = s.effectiveFrontier := by
    unfold effectiveFrontier
    rw [hhead]
    rfl
  rw [isLate, hfrontier, isLate]

theorem push_of_refuses (h : s.refuses seq samples = true) :
    (s.push seq samples = s ∨ ∃ stats, s.push seq samples = { s.reclaim with stats }) ∧
      (s.push seq samples).stats.overflowDropped = s.stats.overflowDropped := by
  unfold push
  by_cases hempty : samples.isEmpty = true
  · rw [if_pos hempty]
    exact ⟨.inl rfl, rfl⟩
  rw [if_neg hempty]
  by_cases hpending : s.reclaim.blocks.any (·.seq = seq) = true
  · rw [if_pos hpending]
    exact ⟨.inr ⟨_, rfl⟩, rfl⟩
  rw [if_neg hpending]
  have hlate : s.reclaim.isLate seq = true := by
    rw [isLate_reclaim]
    have hpending' : (s.blocks.drop s.consumedBlocks).any (·.seq = seq) = false :=
      Bool.eq_false_iff.mpr hpending
    simpa [refuses, Bool.eq_false_iff.mpr hempty, hpending'] using h
  rw [if_pos hlate]
  exact ⟨.inr ⟨_, rfl⟩, rfl⟩

theorem push_of_takes (h : s.refuses seq samples = false) :
    s.push seq samples = ((s.reclaim.inserted ⟨seq, samples⟩).dropPastHighWater
      (s.reclaim.inserted ⟨seq, samples⟩).blocks.length).prime := by
  simp only [refuses, Bool.or_eq_false_iff] at h
  obtain ⟨⟨hsamples, hpending⟩, hlate⟩ := h
  have hpending' : s.reclaim.blocks.any (·.seq = seq) = false := hpending
  have hlate' : s.reclaim.isLate seq = false := by rw [isLate_reclaim, hlate]
  simp [push, hsamples, hpending', hlate']

end AudioJitterBuffer

/-! ## §3 Runs -/

/-- What the owner of a stage does with it. -/
inductive AudioOp (α : Type u) where
  | push (seq : UInt32) (samples : List α)
  | pull (length : Nat)
  | drain (length : Nat)
  | starved
  | dropOldest
  | clear
  deriving DecidableEq

/-- A stage, the frames offered to it, the samples it has put out, silence
apart, and the head that a clear has cut off half-played, as long as nothing
newer has played or been dropped. -/
structure Playback (α : Type u) where
  stage : AudioJitterBuffer α
  pushed : List (Block α)
  emitted : List α
  cut : Option UInt32

namespace Playback

variable [Zero α]

/-- Before the first frame. -/
def start (stage : AudioJitterBuffer α) : Playback α := ⟨stage, [], [], none⟩

/-- The samples an operation puts out, without the silence it has counted,
and the stage after it. -/
def answer (s : AudioJitterBuffer α) : AudioOp α → List α × AudioJitterBuffer α
  | .push seq samples => ([], s.push seq samples)
  | .pull length =>
    ((s.pull length).1.take (length - ((s.pull length).2.stats.silenceSamples - s.stats.silenceSamples)),
      (s.pull length).2)
  | .drain length => s.drainAvailable length
  | .starved => ([], s.noteConsumerStarved)
  | .dropOldest => ([], s.dropOldestPending)
  | .clear => ([], s.clear)

/-- The frames an operation offers. -/
def offers : AudioOp α → List (Block α)
  | .push seq samples => [⟨seq, samples⟩]
  | _ => []

/-- The head that is cut off half-played after an operation. -/
def cutAfter (p : Playback α) (op : AudioOp α) : Option UInt32 :=
  match op with
  | .clear => if 0 < p.stage.headSampleOffset then p.stage.head?.map (·.seq) else p.cut
  | _ =>
    if (answer p.stage op).1.isEmpty ∧
        (answer p.stage op).2.stats.overflowDropped = p.stage.stats.overflowDropped then p.cut
    else none

/-- One operation. -/
def step (p : Playback α) (op : AudioOp α) : Playback α where
  stage := (answer p.stage op).2
  pushed := p.pushed ++ offers op
  emitted := p.emitted ++ (answer p.stage op).1
  cut := p.cutAfter op

/-- After a clear has cut off a half-played head, a frame that is taken is
ahead of that head, until something newer has played or been dropped. -/
def Resumes (p : Playback α) (op : AudioOp α) : Prop :=
  ∀ head ∈ p.cut, ∀ block ∈ offers op,
    p.stage.refuses block.seq block.samples = true ∨ 0 < distanceWrapped block.seq head

instance (p : Playback α) (op : AudioOp α) : Decidable (p.Resumes op) :=
  have : ∀ head, Decidable (∀ block ∈ offers op,
      p.stage.refuses block.seq block.samples = true ∨ 0 < distanceWrapped block.seq head) :=
    fun _ => List.decidableBAll _ _
  Option.decidableForallMem _

/-- What was put out is pieces of the frames that were offered: samples from
the start of each, each frame once, each frame's sequence ahead of the one
before; and ahead of all before it as long as the frames are within half the
space of one another. -/
def InSequence (p : Playback α) : Prop :=
  ∃ order : List (Piece α), (∀ piece ∈ order, p.pushed[piece.index]? = some piece.block) ∧
    (order.map Piece.index).Nodup ∧ p.emitted = order.flatMap Piece.samples ∧
    order.IsChain Piece.Behind ∧
    ∀ base, (∀ block ∈ p.pushed, 0 ≤ distanceWrapped block.seq base) → order.Pairwise Piece.Behind

/-- The keys of the pieces: of frames that were offered, each once, each
behind the next. -/
structure Sourced (pushed : List (Block α)) (keys : List (Nat × Block α)) : Prop where
  offered : ∀ key ∈ keys, pushed[key.1]? = some key.2
  once : (keys.map Prod.fst).Nodup
  ascending : keys.IsChain fun key key' => distanceWrapped key.2.seq key'.2.seq < 0

/-- What a run keeps: the stage plays these pieces; and between two frames
the frontier is at the piece that was over last, unless a clear cut it
off. -/
structure Kept (p : Playback α) (order pending : List (Piece α)) : Prop where
  plays : Plays p.stage order pending p.emitted
  sourced : Sourced p.pushed ((order ++ pending).map Piece.key)
  frontier : p.cut = none → p.stage.headSampleOffset = 0 →
    p.stage.playFrontier = order.getLast?.map (·.block.seq)
  cut : ∀ head, p.cut = some head →
    p.stage.headSampleOffset = 0 ∧ order.getLast?.map (·.block.seq) = some head

variable {p : Playback α} {order pending : List (Piece α)}
variable {pushed : List (Block α)} {samples : List α} {seq : UInt32} {op : AudioOp α}

omit [Zero α] in
theorem Sourced.append {keys : List (Nat × Block α)} (h : Sourced pushed keys)
    (more : List (Block α)) : Sourced (pushed ++ more) keys where
  offered key hkey := by
    have hsome := h.offered key hkey
    rw [List.getElem?_append_left (List.getElem?_eq_some_iff.mp hsome).1, hsome]
  once := h.once
  ascending := h.ascending

omit [Zero α] in
theorem Sourced.left {keys more : List (Nat × Block α)}
    (h : Sourced pushed (keys ++ more)) : Sourced pushed keys where
  offered key hkey := h.offered key (List.mem_append_left _ hkey)
  once := by
    have honce := h.once
    rw [List.map_append] at honce
    exact honce.of_append_left
  ascending := (List.isChain_append.mp h.ascending).1

omit [Zero α] in
theorem Sourced.insert {before after : List (Nat × Block α)} {block : Block α}
    (h : Sourced pushed (before ++ after))
    (hbefore : ∀ key ∈ before.getLast?, distanceWrapped key.2.seq block.seq < 0)
    (hafter : ∀ key ∈ after.head?, distanceWrapped block.seq key.2.seq < 0) :
    Sourced (pushed ++ [block]) (before ++ (pushed.length, block) :: after) where
  offered key hkey := by
    rcases List.mem_append.mp hkey with hfront | hback
    · exact (h.append [block]).offered key (List.mem_append_left _ hfront)
    · rcases List.mem_cons.mp hback with rfl | hback
      · simp
      · exact (h.append [block]).offered key (List.mem_append_right _ hback)
  once := by
    -- the other keys are of earlier pushes
    have hnew : pushed.length ∉ (before ++ after).map Prod.fst := by
      intro hmem
      obtain ⟨key, hkey, hindex⟩ := List.mem_map.mp hmem
      have hlt := (List.getElem?_eq_some_iff.mp (h.offered key hkey)).1
      omega
    have honce := h.once
    rw [List.map_append] at honce hnew
    rw [List.map_append, List.map_cons]
    exact (List.nodup_middle).mpr (List.nodup_cons.mpr ⟨hnew, honce⟩)
  ascending := isChain_insert h.ascending hbefore hafter

theorem Kept.refused (h : p.Kept order pending)
    (hrefuses : p.stage.refuses seq samples = true) : (p.step (.push seq samples)).Kept order pending := by
  obtain ⟨hstate, hdropped⟩ := AudioJitterBuffer.push_of_refuses hrefuses
  have hcut : (p.step (.push seq samples)).cut = p.cut := by simp [step, cutAfter, answer, hdropped]
  have hstage : Plays (p.stage.push seq samples) order pending p.emitted ∧
      (p.stage.push seq samples).headSampleOffset = p.stage.headSampleOffset ∧
      (p.stage.push seq samples).playFrontier = p.stage.playFrontier := by
    rcases hstate with heq | ⟨stats, heq⟩
    · rw [heq]
      exact ⟨h.plays, rfl, rfl⟩
    · rw [heq]
      exact ⟨h.plays.reclaim.same rfl rfl rfl, rfl, rfl⟩
  obtain ⟨hplays, hoffset, hfrontier⟩ := hstage
  refine ⟨?_, h.sourced.append _, fun hnone hzero => ?_, fun head hhead => ?_⟩
  · simpa [step, answer] using hplays
  · change (p.stage.push seq samples).playFrontier = _
    rw [hfrontier]
    exact h.frontier (hcut ▸ hnone) (hoffset ▸ hzero)
  · change (p.stage.push seq samples).headSampleOffset = 0 ∧ _
    rw [hoffset]
    exact h.cut head (hcut ▸ hhead)

omit [Zero α] in
theorem Kept.ahead (h : p.Kept order pending)
    (htakes : p.stage.refuses seq samples = false) (hresumes : p.Resumes (.push seq samples))
    (hoffset : p.stage.headSampleOffset = 0) :
    ∀ piece ∈ order.getLast?, 0 < distanceWrapped seq piece.block.seq := by
  intro piece hpiece
  cases hcut : p.cut with
  | none =>
    have hfrontier := h.frontier hcut hoffset
    rw [hpiece, Option.map_some] at hfrontier
    have heffective : p.stage.effectiveFrontier = some piece.block.seq := by
      unfold AudioJitterBuffer.effectiveFrontier
      rw [hoffset, hfrontier]
      split <;> simp
    have hlate : p.stage.isLate seq = false := by
      simp only [AudioJitterBuffer.refuses, Bool.or_eq_false_iff] at htakes
      exact htakes.2
    simpa [AudioJitterBuffer.isLate, heffective] using hlate
  | some head =>
    have hlast := (h.cut head hcut).2
    rw [hpiece, Option.map_some, Option.some.injEq] at hlast
    rw [hlast]
    simpa [htakes] using hresumes head hcut ⟨seq, samples⟩ (List.mem_singleton_self _)

theorem Kept.taken (h : p.Kept order pending)
    (htakes : p.stage.refuses seq samples = false) (hresumes : p.Resumes (.push seq samples)) :
    ∃ order' pending', (p.step (.push seq samples)).Kept order' pending' := by
  have hpush := AudioJitterBuffer.push_of_takes htakes
  have hparts := htakes
  simp only [AudioJitterBuffer.refuses, Bool.or_eq_false_iff] at hparts
  obtain ⟨⟨hsamples, hpending⟩, hlate⟩ := hparts
  obtain ⟨front, back, rfl, hinserted, hbefore, hafter⟩ := h.plays.reclaim.inserted rfl ⟨seq, samples⟩
    (by simpa using hsamples)
    (fun other hother heq => List.any_eq_false.mp hpending other hother (by simpa using heq))
    (by rw [AudioJitterBuffer.isLate_reclaim, hlate]) (h.ahead htakes hresumes) p.pushed.length
  obtain ⟨order', pending', hplays, hsame, hstay, hmore, hfrontier⟩ := hinserted.dropPastHighWater
    (p.stage.reclaim.inserted ⟨seq, samples⟩).blocks.length rfl
  generalize hroom : (p.stage.reclaim.inserted ⟨seq, samples⟩).dropPastHighWater
    (p.stage.reclaim.inserted ⟨seq, samples⟩).blocks.length = stage at *
  have hprime : stage.prime.blocks = stage.blocks ∧ stage.prime.consumedBlocks = stage.consumedBlocks ∧
      stage.prime.headSampleOffset = stage.headSampleOffset ∧
      stage.prime.playFrontier = stage.playFrontier ∧ stage.prime.stats = stage.stats := by
    unfold AudioJitterBuffer.prime
    split <;> exact ⟨rfl, rfl, rfl, rfl, rfl⟩
  obtain ⟨hblocks, hconsumed, hoffset, hplayFrontier, hstats⟩ := hprime
  have hstage : (p.step (.push seq samples)).stage = stage.prime := hpush
  have hdropped : (p.stage.reclaim.inserted ⟨seq, samples⟩).stats.overflowDropped =
      p.stage.stats.overflowDropped := rfl
  have hcut : (p.step (.push seq samples)).cut =
      if stage.stats.overflowDropped = p.stage.stats.overflowDropped then p.cut else none := by
    simp [step, cutAfter, answer, hpush, hstats]
  have hbase : Sourced p.pushed ((order ++ front).map Piece.key ++ back.map Piece.key) := by
    simpa using h.sourced
  have hbefore' : ∀ key ∈ ((order ++ front).map Piece.key).getLast?, distanceWrapped key.2.seq seq < 0 := by
    rw [List.getLast?_map]
    intro key hkey
    obtain ⟨piece, hpiece, rfl⟩ := Option.map_eq_some_iff.mp hkey
    exact hbefore piece hpiece
  have hafter' : ∀ key ∈ (back.map Piece.key).head?, distanceWrapped seq key.2.seq < 0 := by
    rw [List.head?_map]
    intro key hkey
    obtain ⟨piece, hpiece, rfl⟩ := Option.map_eq_some_iff.mp hkey
    exact hafter piece hpiece
  have hsourced : Sourced (p.pushed ++ [⟨seq, samples⟩]) ((order ++ front).map Piece.key ++
      (p.pushed.length, ⟨seq, samples⟩) :: back.map Piece.key) := hbase.insert hbefore' hafter'
  refine ⟨order', pending', ?_, ?_, fun hnone hzero => ?_, fun head hhead => ?_⟩
  · rw [hstage]
    simpa [step, answer] using hplays.same hblocks hconsumed hoffset
  · rw [hsame]
    simpa [step, offers, Piece.key] using hsourced
  · rw [hstage, hoffset] at hzero
    rw [hstage, hplayFrontier]
    by_cases hnothing : stage.stats.overflowDropped = p.stage.stats.overflowDropped
    · obtain ⟨hstate, horder⟩ := hstay (hnothing.trans hdropped.symm)
      rw [hcut, if_pos hnothing] at hnone
      rw [hstate] at hzero ⊢
      rw [horder]
      exact h.frontier hnone hzero
    · exact (hfrontier (Nat.lt_of_le_of_ne hmore fun heq => hnothing (heq.symm.trans hdropped))).2
  · rw [hcut] at hhead
    split at hhead
    · rename_i hnothing
      obtain ⟨hstate, horder⟩ := hstay (hnothing.trans hdropped.symm)
      rw [hstage, hoffset, hstate, horder]
      exact h.cut head hhead
    · simp at hhead

/-- The parts of a stage that playing and dropping go by. -/
def SameQueue (s' s : AudioJitterBuffer α) : Prop :=
  s'.blocks = s.blocks ∧ s'.consumedBlocks = s.consumedBlocks ∧ s'.headSampleOffset = s.headSampleOffset ∧
    s'.playFrontier = s.playFrontier ∧ s'.stats.overflowDropped = s.stats.overflowDropped

omit [Zero α] in
theorem stats_copyFrom (list : List (Block α)) (room : Nat) (s : AudioJitterBuffer α) :
    (AudioJitterBuffer.copyFrom list room s).2.stats = s.stats := by
  induction list generalizing room s with
  | nil => rfl
  | cons block list ih =>
    unfold AudioJitterBuffer.copyFrom
    dsimp only
    split
    · rfl
    split
    · rfl
    split
    · exact ih ..
    · rfl

omit [Zero α] in
theorem length_copyFrom (list : List (Block α)) (room : Nat) (s : AudioJitterBuffer α) :
    (AudioJitterBuffer.copyFrom list room s).1.length ≤ room := by
  induction list generalizing room s with
  | nil => exact Nat.zero_le _
  | cons block list ih =>
    unfold AudioJitterBuffer.copyFrom
    dsimp only
    generalize hsource : (block.samples.drop s.headSampleOffset).take room = source
    have hlength : source.length ≤ room := by
      rw [← hsource, List.length_take]
      exact Nat.min_le_left ..
    split
    · exact Nat.zero_le _
    split
    · exact Nat.zero_le _
    split
    · have hrest := ih (room - source.length) { s with
        playFrontier := some block.seq
        consumedBlocks := s.consumedBlocks + 1
        headSampleOffset := 0 }
      simp only [List.length_append]
      omega
    · exact hlength

omit [Zero α] in
theorem copyAvailable_zero (s : AudioJitterBuffer α) : s.copyAvailable 0 = ([], s) := by
  unfold AudioJitterBuffer.copyAvailable
  cases s.blocks.drop s.consumedBlocks <;> simp [AudioJitterBuffer.copyFrom]

theorem pull_spec (s : AudioJitterBuffer α) (length : Nat) : ∃ room,
    (answer s (.pull length)).1 = (s.copyAvailable room).1 ∧
      SameQueue (answer s (.pull length)).2 (s.copyAvailable room).2 := by
  have hnone := copyAvailable_zero s
  have hstats := stats_copyFrom (s.blocks.drop s.consumedBlocks) length s
  have hlength := length_copyFrom (s.blocks.drop s.consumedBlocks) length s
  simp only [answer]
  unfold AudioJitterBuffer.pull
  by_cases hzero : length = 0
  · exact ⟨0, by simp [hzero, hnone], by simp [hzero, hnone, SameQueue]⟩
  rw [if_neg hzero]
  cases hprimed : s.primed with
  | false =>
    refine ⟨0, ?_, ?_⟩
    · simp [hnone, hzero, hprimed]
    · simp [hnone, hzero, hprimed, SameQueue]
  | true =>
    refine ⟨length, ?_⟩
    change (s.copyAvailable length).2.stats = s.stats at hstats
    change (s.copyAvailable length).1.length ≤ length at hlength
    generalize s.copyAvailable length = copied at hstats hlength
    obtain ⟨wrote, copied⟩ := copied
    dsimp only at hstats hlength
    simp only [if_true]
    by_cases hfull : length ≤ wrote.length
    · simp [hfull, hstats, SameQueue, List.take_of_length_le hlength]
    · have hshort : length - (copied.stats.silenceSamples + (length - wrote.length) - s.stats.silenceSamples) =
          wrote.length := by
        rw [hstats]
        omega
      cases copied.primed <;> simp [hfull, hshort, SameQueue]

theorem cutAfter_of_ne (p : Playback α) (h : op ≠ .clear) : p.cutAfter op =
    if (answer p.stage op).1.isEmpty ∧
      (answer p.stage op).2.stats.overflowDropped = p.stage.stats.overflowDropped then p.cut
    else none := by
  cases op with
  | clear => exact absurd rfl h
  | push seq samples => rfl
  | pull length => rfl
  | drain length => rfl
  | starved => rfl
  | dropOldest => rfl

section

variable (h : p.Kept order pending)
include h

omit [Zero α] in
theorem Kept.head?_eq : p.stage.head? = pending.head?.map Piece.block := by
  have hblocks := h.plays.blocks
  rw [AudioJitterBuffer.head?, ← List.head?_drop, ← hblocks, List.head?_map]

theorem Kept.played (hnothing : offers op = [])
    (hclear : op ≠ .clear) (room : Nat) (hout : (answer p.stage op).1 = (p.stage.copyAvailable room).1)
    (hstage : SameQueue (answer p.stage op).2 (p.stage.copyAvailable room).2) :
    ∃ order' pending', (p.step op).Kept order' pending' := by
  obtain ⟨order', pending', hplays, hkeys, hstay, hmore⟩ := h.plays.copyFrom rfl room
  obtain ⟨hblocks, hconsumed, hoffset, hfrontier, hdropped⟩ := hstage
  have hstats : (answer p.stage op).2.stats.overflowDropped = p.stage.stats.overflowDropped :=
    hdropped.trans (congrArg _ (stats_copyFrom ..))
  have hcut : (p.step op).cut = if (p.stage.copyAvailable room).1.isEmpty then p.cut else none := by
    simp [step, cutAfter_of_ne p hclear, hout, hstats]
  refine ⟨order', pending', ?_, ?_, fun hnone hzero => ?_, fun head hhead => ?_⟩
  · simp only [step]
    rw [hout]
    exact hplays.same hblocks hconsumed hoffset
  · rw [hkeys]
    simpa [step, hnothing] using h.sourced
  · change (answer p.stage op).2.playFrontier = _
    change (answer p.stage op).2.headSampleOffset = 0 at hzero
    rw [hfrontier]
    rw [hoffset] at hzero
    by_cases hempty : (p.stage.copyAvailable room).1 = []
    · obtain ⟨hstate, horder⟩ := hstay hempty
      change (p.stage.copyAvailable room).2 = p.stage at hstate
      rw [hcut, hempty] at hnone
      rw [hstate] at hzero ⊢
      rw [horder]
      exact h.frontier hnone hzero
    · exact hmore hempty hzero
  · rw [hcut] at hhead
    split at hhead
    · rename_i hempty
      obtain ⟨hstate, horder⟩ := hstay (List.isEmpty_iff.mp hempty)
      change (p.stage.copyAvailable room).2 = p.stage at hstate
      change (answer p.stage op).2.headSampleOffset = 0 ∧ _
      rw [hoffset, hstate, horder]
      exact h.cut head hhead
    · simp at hhead

theorem Kept.dropOldest :
    ∃ order' pending', (p.step .dropOldest).Kept order' pending' := by
  have hhead := h.head?_eq
  cases pending with
  | nil =>
    have hstage : p.stage.dropOldestPending = p.stage := by
      simp [AudioJitterBuffer.dropOldestPending, hhead]
    have hstep : p.step .dropOldest = p := by
      simp [step, cutAfter, answer, offers, hstage]
    rw [hstep]
    exact ⟨order, [], h⟩
  | cons piece rest =>
    have hblocks := h.plays.blocks
    have hlt : p.stage.consumedBlocks < p.stage.blocks.length := by
      grind [List.length_map, List.length_cons, List.length_drop]
    have hdrop : (p.stage.blocks.eraseIdx p.stage.consumedBlocks).drop p.stage.consumedBlocks =
        rest.map Piece.block := by
      rw [List.eraseIdx_eq_take_drop_succ, List.drop_append_of_le_length (by rw [List.length_take]; omega),
        List.drop_take_self, List.nil_append, ← List.tail_drop, ← hblocks, List.map_cons, List.tail_cons]
    have hstage : (p.step .dropOldest).stage = { p.stage with
        blocks := p.stage.blocks.eraseIdx p.stage.consumedBlocks
        headSampleOffset := 0
        playFrontier := some piece.block.seq
        stats := { p.stage.stats with overflowDropped := p.stage.stats.overflowDropped + 1 } } := by
      simp [step, answer, AudioJitterBuffer.dropOldestPending, hhead]
    have hcut : (p.step .dropOldest).cut = none := by
      simp [step, cutAfter, answer, AudioJitterBuffer.dropOldestPending, hhead]
    refine ⟨order ++ [piece], rest, ?_, ?_, fun _ _ => ?_, fun head hsome => ?_⟩
    · have hemitted : (p.step .dropOldest).emitted = p.emitted := by simp [step, answer]
      rw [hemitted]
      refine h.plays.skip ?_ (by rw [hstage]; exact hdrop) (by rw [hstage])
      rw [hstage]
      change p.stage.consumedBlocks ≤ (p.stage.blocks.eraseIdx p.stage.consumedBlocks).length
      rw [List.length_eraseIdx_of_lt hlt]
      omega
    · simpa [step, offers] using h.sourced
    · rw [hstage]
      simp
    · simp [hcut] at hsome

theorem Kept.clear :
    ∃ order' pending', (p.step .clear).Kept order' pending' := by
  have hhead := h.head?_eq
  -- the pieces that stay are those that have given something
  have hempty : ∀ order' : List (Piece α), p.emitted = order'.flatMap Piece.samples →
      Plays (p.step .clear).stage order' [] (p.step .clear).emitted := by
    intro order' hout
    refine ⟨?_, Nat.le_refl _, rfl, by simp, by simp, by simp, fun _ => rfl⟩
    simpa [step, answer] using hout
  by_cases hbegun : 0 < p.stage.headSampleOffset
  · obtain ⟨piece, rest, rfl⟩ : ∃ piece rest, pending = piece :: rest := by
      cases pending with
      | nil => exact absurd (h.plays.idle rfl) (Nat.ne_of_gt hbegun)
      | cons piece rest => exact ⟨piece, rest, rfl⟩
    have hcut : (p.step .clear).cut = some piece.block.seq := by
      simp [step, cutAfter, hbegun, hhead]
    refine ⟨order ++ [piece], [], hempty _ ?_, ?_, fun hnone => ?_, fun head hsome => ?_⟩
    · rw [h.plays.out_eq, List.flatMap_append]
      simp [Piece.samples, (h.plays.head piece rest rfl).1]
    · have hsourced : Sourced p.pushed ((order ++ [piece]).map Piece.key ++ rest.map Piece.key) := by
        simpa using h.sourced
      simpa [step, offers] using hsourced.left
    · simp [hcut] at hnone
    · rw [hcut, Option.some.injEq] at hsome
      exact ⟨rfl, by simp [hsome]⟩
  · have hzero : p.stage.headSampleOffset = 0 := Nat.eq_zero_of_not_pos hbegun
    have hcut : (p.step .clear).cut = p.cut := by simp [step, cutAfter, hzero]
    refine ⟨order, [], hempty _ ?_, ?_, fun hnone _ => ?_, fun head hsome => ?_⟩
    · have hnothing : pending.flatMap Piece.samples = [] := by
        refine List.flatMap_eq_nil_iff.mpr fun piece hpiece => ?_
        simp [Piece.samples, h.plays.quiet hzero piece hpiece]
      rw [h.plays.out, List.flatMap_append, hnothing, List.append_nil]
    · have hsourced : Sourced p.pushed (order.map Piece.key ++ pending.map Piece.key) := by
        simpa using h.sourced
      simpa [step, offers] using hsourced.left
    · exact h.frontier (hcut ▸ hnone) hzero
    · exact ⟨rfl, (h.cut head (hcut ▸ hsome)).2⟩

theorem Kept.step (hop : p.Resumes op) :
    ∃ order' pending', (p.step op).Kept order' pending' := by
  cases op with
  | push seq samples =>
    cases hrefuses : p.stage.refuses seq samples with
    | true => exact ⟨order, pending, h.refused hrefuses⟩
    | false => exact h.taken hrefuses hop
  | pull length =>
    obtain ⟨room, hout, hstage⟩ := pull_spec p.stage length
    exact h.played rfl (by simp) room hout hstage
  | drain length =>
    by_cases hidle : ¬ p.stage.primed ∨ length = 0
    · have hstay : answer p.stage (.drain length) = p.stage.copyAvailable 0 := by
        rw [copyAvailable_zero, answer, AudioJitterBuffer.drainAvailable, if_pos hidle]
      exact h.played rfl (by simp) 0 (by rw [hstay]) (by rw [hstay]; exact ⟨rfl, rfl, rfl, rfl, rfl⟩)
    · have hcopy : answer p.stage (.drain length) = p.stage.copyAvailable length := by
        rw [answer, AudioJitterBuffer.drainAvailable, if_neg hidle]
      exact h.played rfl (by simp) length (by rw [hcopy]) (by rw [hcopy]; exact ⟨rfl, rfl, rfl, rfl, rfl⟩)
  | starved =>
    refine h.played rfl (by simp) 0 (by simp [answer, copyAvailable_zero]) ?_
    rw [copyAvailable_zero]
    simp only [answer]
    unfold AudioJitterBuffer.noteConsumerStarved
    split <;> exact ⟨rfl, rfl, rfl, rfl, rfl⟩
  | dropOldest => exact h.dropOldest
  | clear => exact h.clear

end

omit [Zero α] in
theorem Kept.inSequence (h : p.Kept order pending) : p.InSequence := by
  have hkeys : ∀ piece ∈ order ++ pending, p.pushed[piece.index]? = some piece.block :=
    fun piece hpiece => h.sourced.offered piece.key (List.mem_map_of_mem hpiece)
  have hchain : (order ++ pending).IsChain Piece.Behind := (List.isChain_map Piece.key).mp h.sourced.ascending
  refine ⟨order ++ pending, hkeys, ?_, h.plays.out, hchain, fun base hbase => ?_⟩
  · have honce := h.sourced.once
    rwa [List.map_map] at honce
  · -- within half the space the distances from one base say who is ahead
    have hposition : ∀ piece ∈ order ++ pending, 0 ≤ distanceWrapped piece.block.seq base :=
      fun piece hpiece => hbase piece.block (List.mem_of_getElem? (hkeys piece hpiece))
    have hdistance : ∀ piece ∈ order ++ pending, ∀ piece' ∈ order ++ pending,
        distanceWrapped piece.block.seq piece'.block.seq =
          distanceWrapped piece.block.seq base - distanceWrapped piece'.block.seq base := by
      intro piece hpiece piece' hpiece'
      have hle := hposition piece hpiece
      have hle' := hposition piece' hpiece'
      have hlt := distanceWrapped_lt piece.block.seq base
      have hlt' := distanceWrapped_lt piece'.block.seq base
      exact distance_sub base (by omega) (by omega)
    have hlifted : (order ++ pending).Pairwise fun piece piece' =>
        distanceWrapped piece.block.seq base < distanceWrapped piece'.block.seq base := by
      refine List.isChain_iff_pairwise.mp (hchain.imp_of_mem_imp fun piece piece' hpiece hpiece' hbehind => ?_)
      unfold Piece.Behind at hbehind
      have heq := hdistance piece hpiece piece' hpiece'
      omega
    refine hlifted.imp_of_mem fun {piece piece'} hpiece hpiece' hlt => ?_
    unfold Piece.Behind
    have heq := hdistance piece hpiece piece' hpiece'
    omega

/-- A run that resumes ahead of what a clear cut off never repeats and never
reorders. -/
theorem stays_in_sequence (channels targetDepthFrames highWaterFrames : Nat) (ops : List (AudioOp α))
    (h : Meets step Resumes (start (.new channels targetDepthFrames highWaterFrames)) ops) :
    (run step (start (.new channels targetDepthFrames highWaterFrames)) ops).InSequence := by
  have hstart : (start (.new channels targetDepthFrames highWaterFrames) : Playback α).Kept [] [] :=
    ⟨⟨rfl, Nat.le_refl _, rfl, by simp, by simp, by simp, fun _ => rfl⟩, ⟨by simp, by simp, by simp⟩,
      fun _ _ => rfl, fun _ hsome => by simp [start] at hsome⟩
  have hkept := h.invariant (fun p => ∃ order pending, p.Kept order pending)
    (fun _ _ hop ⟨_, _, hkept⟩ => hkept.step hop) ⟨[], [], hstart⟩
  obtain ⟨order, pending, hkept⟩ := hkept
  exact hkept.inSequence

/-- Half of the first frame, a clear, and then the second frame. -/
theorem stays_in_sequence_cleared :
    let ops : List (AudioOp Nat) := [.push 1 [11, 12], .pull 1, .clear, .push 2 [21, 22], .pull 2]
    let p := run step (start (.new 1 1 8)) ops
    p.emitted = [11, 21, 22] ∧ p.InSequence := by
  intro ops p
  have hops : Meets step Resumes (start (.new 1 1 8)) ops := by decide
  have hemitted : p.emitted = [11, 21, 22] := by decide
  exact ⟨hemitted, stays_in_sequence 1 1 8 ops hops⟩

/-- Half of the first frame, a clear, and then the first frame again: its
first sample is put out twice. -/
theorem cleared_repeats :
    let ops : List (AudioOp Nat) := [.push 1 [11, 12], .pull 1, .clear, .push 1 [11, 12], .pull 2]
    ¬ (run step (start (.new 1 1 8)) ops).InSequence := by
  rintro ops ⟨order, hblocks, -, hout, hchain, -⟩
  have hemitted : (run step (start (.new 1 1 8)) ops).emitted = [11, 11, 12] := by decide
  have hpushed : (run step (start (.new 1 1 8)) ops).pushed = [⟨1, [11, 12]⟩, ⟨1, [11, 12]⟩] := by decide
  rw [hemitted] at hout
  rw [hpushed] at hblocks
  have hblock : ∀ piece ∈ order, piece.block = ⟨1, [11, 12]⟩ := by
    grind
  match order with
  | [] => simp at hout
  | [piece] =>
    -- one piece of a frame of two samples is no three samples
    have hlength := congrArg List.length hout
    rw [List.flatMap_singleton, Piece.samples, hblock piece (List.mem_singleton_self _), List.length_take] at hlength
    simp only [List.length_cons, List.length_nil] at hlength
    omega
  | piece :: piece' :: rest =>
    have hbehind := (List.isChain_cons_cons.mp hchain).1
    rw [Piece.Behind, hblock piece (by simp), hblock piece' (by simp), distanceWrapped_self] at hbehind
    exact Int.lt_irrefl 0 hbehind

end Playback

end SlopDesk.Video
