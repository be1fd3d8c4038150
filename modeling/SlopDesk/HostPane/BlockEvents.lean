/-
SlopDesk.HostPane.BlockEvents — the block events of a subscription.

superd sends a chunk's block events ahead of its bytes, and a stream hands
them on with the next chunk it does not drop. The backlog carries no block
events: those of a chunk that the snapshot took are on the second copy of
it, the live one, and a stream that has the bytes drops that copy with
everything paired with it. `Clear` is the condition that the snapshot
takes no chunk whose events have yet to be sent; under it every event that
is fanned out to the subscription reaches the sink once, on the call that
hands its chunk's bytes on (`blocks_reach`).

§1 what a run of frames and a run of calls carry. §2 `Ahead`, that a chunk
with events is not behind what the stream expects. §3 the invariant, a
lemma for each kind of step, and the run.
-/
import SlopDesk.HostPane.SubscriptionTheorems

namespace SlopDesk.HostPane

open SlopDesk.Base
open SlopDesk.Superd

variable {σ β : Type}
variable {mark reach : Nat}
variable {offset mark' : Nat} {link : List (Frame σ β)} {pending : List β}

/-! ## §1 What is carried -/

/-- A chunk's block events, and the chunk. -/
structure Paired (β : Type) where
  endsAt : Nat
  payload : List UInt8
  blocks : List β
  deriving DecidableEq, Repr

/-- Nothing where there are no events. -/
def paired (endsAt : Nat) (payload : List UInt8) (blocks : List β) : List (Paired β) :=
  if blocks.isEmpty then [] else [⟨endsAt, payload, blocks⟩]

/-- The block events a run of calls hands on. -/
def handedBlocks (calls : List (SinkCall σ β)) : List (Paired β) :=
  calls.flatMap fun call =>
    match call with
    | .chunk payload endsAt _ blocks => paired endsAt payload blocks
    | .ended | .log _ => []

/-- The block events of a run of chunks that were fanned out. -/
def fannedBlocks (chunks : List (Waiting σ β)) : List (Paired β) :=
  chunks.flatMap fun w => paired (w.offset + w.bytes.length) w.bytes w.blocks

/-- The block events that a stream with `pending` events will pair with the
chunks of a run of frames. -/
def awaiting (pending : List β) : List (Frame σ β) → List (Paired β)
  | [] => []
  | .blocks events :: rest => awaiting (pending ++ events) rest
  | .output offset payload :: rest =>
    paired (offset + payload.length) payload pending ++ awaiting [] rest
  | .reply .. :: rest | .sniff _ :: rest | .exited :: rest => awaiting pending rest

/-- No block events among the frames. -/
def NoBlocks (frames : List (Frame σ β)) : Prop := ∀ events, .blocks events ∉ frames

@[simp] theorem paired_nil (endsAt : Nat) (payload : List UInt8) :
    paired endsAt payload ([] : List β) = [] := rfl

@[simp] theorem handedBlocks_append (a b : List (SinkCall σ β)) :
    handedBlocks (a ++ b) = handedBlocks a ++ handedBlocks b := by
  simp [handedBlocks]

@[simp] theorem handedBlocks_nil : handedBlocks ([] : List (SinkCall σ β)) = [] := rfl
@[simp] theorem handedBlocks_ended : handedBlocks [(.ended : SinkCall σ β)] = [] := rfl
@[simp] theorem handedBlocks_log (line : String) : handedBlocks [(.log line : SinkCall σ β)] = [] := rfl

@[simp] theorem handedBlocks_gap (name : String) (g : Guarded σ β) (offset : Nat) :
    handedBlocks (g.gap name offset) = [] := by
  unfold Guarded.gap
  split
  case h_1 => rfl
  case h_2 => split <;> rfl

@[simp] theorem fannedBlocks_append (a b : List (Waiting σ β)) :
    fannedBlocks (a ++ b) = fannedBlocks a ++ fannedBlocks b := by
  simp [fannedBlocks]

theorem NoBlocks.tail {frame : Frame σ β} {rest : List (Frame σ β)} (h : NoBlocks (frame :: rest)) :
    NoBlocks rest := fun events hmem => h events (List.mem_cons_of_mem _ hmem)

theorem noBlocks_append {a b : List (Frame σ β)} : NoBlocks (a ++ b) ↔ NoBlocks a ∧ NoBlocks b := by
  simp [NoBlocks, forall_and]

theorem noBlocks_backlogFrames (offset : Nat) (pieces : List (List UInt8)) :
    NoBlocks (backlogFrames offset pieces : List (Frame σ β)) := by
  induction pieces generalizing offset with
  | nil => intro events h; cases h
  | cons piece rest ih =>
    intro events h
    rcases List.mem_cons.mp h with h | h
    · cases h
    · exact ih (offset + piece.length) events h

theorem exited_notMem_writeBacklog (limit : Nat) (r : Resume) (sniffed : List σ) :
    (.exited : Frame σ β) ∉ writeBacklog limit r sniffed := by
  have hbacklog : ∀ (offset : Nat) (pieces : List (List UInt8)),
      (.exited : Frame σ β) ∉ backlogFrames offset pieces := by
    intro offset pieces
    induction pieces generalizing offset with
    | nil => exact List.not_mem_nil
    | cons piece rest ih =>
      intro h
      rcases List.mem_cons.mp h with h | h
      · cases h
      · exact ih (offset + piece.length) h
  intro h
  rcases List.mem_append.mp h with h | h
  · unfold eventFrames at h
    split at h <;> simp at h
  · exact hbacklog _ _ h

theorem awaiting_noBlocks {frames : List (Frame σ β)} (h : NoBlocks frames) : awaiting [] frames = [] := by
  induction frames with
  | nil => rfl
  | cons frame rest ih =>
    have hrest := ih h.tail
    cases frame with
    | blocks events => exact absurd (List.mem_cons_self ..) (h events)
    | output offset payload => simpa [awaiting] using hrest
    | reply k position => exact hrest
    | sniff events => exact hrest
    | exited => exact hrest

theorem awaiting_outputFrames (w : Waiting σ β) :
    awaiting [] (outputFrames w) = paired (w.offset + w.bytes.length) w.bytes w.blocks := by
  unfold outputFrames eventFrames
  cases hsniffed : w.sniffed.isEmpty <;> cases hblocks : w.blocks with
  | nil => simp [awaiting]
  | cons b bs => simp [awaiting, paired]

/-- What `bytes` hands on, where a chunk that has events is not behind what
the stream expects. -/
theorem Guarded.handedBlocks_bytes (name : String) {g : Guarded σ β} (h : g.stopped = false)
    (payload : List UInt8) (hahead : g.pendingBlocks ≠ [] → g.overlap offset = 0) :
    ∃ handover, (g.bytes name offset payload).2 = some handover ∧
      handedBlocks handover.calls =
        paired (offset + payload.length) payload g.pendingBlocks := by
  refine ⟨_, by simp only [Guarded.bytes, h]; rfl, ?_⟩
  rw [handedBlocks_append, handedBlocks_gap, List.nil_append]
  cases hpending : g.pendingBlocks with
  | nil =>
    split
    · simp [handedBlocks]
    · rfl
  | cons b bs =>
    have hoverlap := hahead (by simp [hpending])
    simp [hoverlap, handedBlocks]

theorem Guarded.pendingBlocks_bytes (name : String) (g : Guarded σ β) (offset : Nat)
    (payload : List UInt8) : (g.bytes name offset payload).1.pendingBlocks = [] := by
  unfold Guarded.bytes
  split <;> rfl

/-! ## §2 A chunk with events is not behind -/

/-- A stream that expects no byte past `reach`, with `pending` events, comes
to expect none past `mark` over the frames, meets no chunk with events
behind what it expects, and ends with no event pending; after the pane's
exit no events come. -/
def Ahead (mark : Nat) (reach : Nat) (pending : List β) : List (Frame σ β) → Prop
  | [] => reach ≤ mark ∧ pending = []
  | .blocks events :: rest => Ahead mark reach (pending ++ events) rest
  | .output offset payload :: rest =>
    (pending ≠ [] → reach ≤ offset) ∧ Ahead mark (max reach (offset + payload.length)) [] rest
  | .reply _ position :: rest => Ahead mark (max reach position.start) pending rest
  | .sniff _ :: rest => Ahead mark reach pending rest
  | .exited :: rest => pending = [] ∧ NoBlocks rest ∧ Ahead mark reach pending rest

theorem Ahead.append {more : List (Frame σ β)}
    (h : Ahead mark reach pending link) (hexited : .exited ∈ link → NoBlocks more)
    (hmore : ∀ reach' ≤ mark, Ahead mark' reach' [] more) : Ahead mark' reach pending (link ++ more) := by
  induction link generalizing reach pending with
  | nil =>
    obtain ⟨hreach, rfl⟩ := h
    exact hmore reach hreach
  | cons frame rest ih =>
    have hrest : .exited ∈ rest → NoBlocks more := fun hmem => hexited (List.mem_cons_of_mem _ hmem)
    cases frame with
    | blocks events => exact ih h hrest
    | output offset payload => exact ⟨h.1, ih h.2 hrest⟩
    | reply k position => exact ih h hrest
    | sniff events => exact ih h hrest
    | exited =>
      obtain ⟨hpending, hquiet, hahead⟩ := h
      exact ⟨hpending, noBlocks_append.mpr ⟨hquiet, hexited (List.mem_cons_self ..)⟩,
        ih hahead hrest⟩

/-- What is pending is paired before the frames end, so more frames only
add what they carry themselves. -/
theorem Ahead.awaiting_append (h : Ahead mark reach pending link) (more : List (Frame σ β)) :
    awaiting pending (link ++ more) = awaiting pending link ++ awaiting [] more := by
  induction link generalizing reach pending with
  | nil =>
    obtain ⟨-, rfl⟩ := h
    rfl
  | cons frame rest ih =>
    cases frame with
    | blocks events => exact ih h
    | output offset payload =>
      simp only [List.cons_append, awaiting, List.append_assoc]
      rw [ih h.2]
    | reply k position => exact ih h
    | sniff events => exact ih h
    | exited => exact ih h.2.2

theorem ahead_backlogFrames {pieces : List (List UInt8)}
    (hreach : reach ≤ mark) (hend : offset + pieces.flatten.length ≤ mark) :
    Ahead mark reach [] (backlogFrames offset pieces : List (Frame σ β)) := by
  induction pieces generalizing offset reach with
  | nil => exact ⟨hreach, rfl⟩
  | cons piece rest ih =>
    simp only [List.flatten_cons, List.length_append] at hend
    refine ⟨fun h => absurd rfl h, ih ?_ ?_⟩
    · omega
    · omega

theorem ahead_writeBacklog (limit : Nat) {r : Resume} (sniffed : List σ)
    (hreach : reach ≤ mark) (hend : r.start + r.bytes.length ≤ mark) :
    Ahead mark reach [] (writeBacklog limit r sniffed : List (Frame σ β)) := by
  have hbacklog : Ahead mark reach []
      (backlogFrames r.start (Blocks.chunks (max limit 1) r.bytes) : List (Frame σ β)) := by
    refine ahead_backlogFrames hreach ?_
    rw [Blocks.flatten_chunks (by omega)]
    exact hend
  unfold writeBacklog eventFrames
  split
  · exact hbacklog
  · exact hbacklog

theorem ahead_outputFrames {w : Waiting σ β} (hreach : reach ≤ mark)
    (hmark : mark ≤ mark') (hend : w.offset + w.bytes.length ≤ mark')
    (hahead : w.blocks ≠ [] → mark ≤ w.offset) : Ahead mark' reach [] (outputFrames w) := by
  have hlast : max reach (w.offset + w.bytes.length) ≤ mark' := by omega
  unfold outputFrames eventFrames
  cases hsniffed : w.sniffed.isEmpty <;> cases hblocks : w.blocks with
  | nil => simpa [Ahead] using hlast
  | cons b bs =>
    have hoffset := hahead (by simp [hblocks])
    simp only [Ahead, List.isEmpty_cons, Bool.false_eq_true, if_false, if_true, List.nil_append,
      List.cons_append]
    exact ⟨fun _ => by omega, hlast, trivial⟩

/-! ## §3 Runs -/

/-- A pane and its one subscription, and the chunks that were fanned out to
it. -/
structure Tap (σ β : Type) where
  seam : Seam σ β
  fanned : List (Waiting σ β)

namespace Tap

/-- Nothing was fanned out yet. -/
def new (capacity : Nat) : Tap σ β := ⟨.new capacity, []⟩

/-- The chunk a fan-out sends, if it sends one. -/
def sends (s : Seam σ β) : SeamOp σ β → List (Waiting σ β)
  | .fanOut =>
    match s.waiting, s.wire with
    | some w, .free => if s.registered then [w] else []
    | _, _ => []
  | _ => []

/-- A step of the seam, with what it fans out noted. -/
def step (limit : Nat) (name : String) (t : Tap σ β) (op : SeamOp σ β) : Tap σ β where
  seam := t.seam.step limit name op
  fanned := t.fanned ++ sends t.seam op

end Tap

/-- The snapshot in the hands of the holder of the wire lock. -/
def Wire.snapshot : Wire → Option Resume
  | .free => none
  | .resumed _ _ r | .answered _ _ r _ => some r

namespace Seam

variable {fanned : List (Waiting σ β)} {s : Seam σ β}

/-- One stream subscribes, and it stays. -/
def OneSubscriber (s : Seam σ β) : SeamOp σ β → Prop
  | .start _ => s.started = 0
  | .stop _ => False
  | _ => True

/-- The next request is a subscribe, and its turn has come. -/
def subscribing (s : Seam σ β) : Bool :=
  match s.wire, s.requests with
  | .free, .subscribe _ _ :: _ => true
  | _, _ => false

/-- A subscribe's snapshot does not fall between the append and the fan-out
of a chunk that has block events. -/
def Clear (s : Seam σ β) : SeamOp σ β → Prop
  | .serve => s.subscribing → s.waiting.all fun w => w.blocks.isEmpty
  | _ => True

instance (s : Seam σ β) : (op : SeamOp σ β) → Decidable (s.OneSubscriber op)
  | .start _ => inferInstanceAs (Decidable (s.started = 0))
  | .stop _ => .isFalse id
  | .append .. | .fanOut | .finishPump | .notify | .serve | .readEnded | .ship _ | .read | .hand
  | .readerFinish | .readerEnd | .accept _ | .acceptFinish _ | .acceptEnd _ => .isTrue trivial

instance (s : Seam σ β) : (op : SeamOp σ β) → Decidable (s.Clear op)
  | .serve => inferInstanceAs (Decidable (_ → _))
  | .start _ | .stop _ | .append .. | .fanOut | .finishPump | .notify | .readEnded | .ship _ | .read
  | .hand | .readerFinish | .readerEnd | .accept _ | .acceptFinish _ | .acceptEnd _ => .isTrue trivial

/-- What holds of the subscription between the steps of such a run. -/
structure Following (s : Seam σ β) : Prop where
  one : s.started ≤ 1
  once : (requested s.requests ++ s.wire.holder).length + (if s.registered then 1 else 0) ≤ s.started
  stays : .unsubscribe ∉ s.requests
  live : (s.streams 0).guarded.stopped = false
  sink : ∀ k, s.sink = some k → k = 0 ∧ s.started = 1
  deaf : s.sink = none → NoBlocks s.link ∧ (s.streams 0).guarded.pendingBlocks = [] ∧
    (s.started = 0 ∨ s.pumpEnded = true)
  exited : .exited ∈ s.link → s.pumpEnded = true
  ahead : ∃ reach, (∀ expected, (s.streams 0).guarded.expectedOffset = some expected →
      expected ≤ reach) ∧
    (∀ position, (s.streams 0).acceptor = .replied position → position.start ≤ reach) ∧
    Ahead s.mark reach (s.streams 0).guarded.pendingBlocks s.link
  unmarked : s.registered = false → s.mark = 0
  marked : s.mark ≤ s.produced.length
  clear : s.registered → ∀ w ∈ s.waiting, w.blocks ≠ [] → s.mark ≤ w.offset
  taken : ∀ r, s.wire.snapshot = some r → ∀ w ∈ s.waiting, w.blocks ≠ [] → r.head ≤ w.offset

/-- The block events handed on, those in the reader's hands and those on the
way are the ones fanned out. -/
def Conserves (s : Seam σ β) (fanned : List (Waiting σ β)) : Prop :=
  handedBlocks ((s.streams 0).calls ++ s.reader.calls)
    ++ awaiting (s.streams 0).guarded.pendingBlocks s.link = fannedBlocks fanned

theorem following_new (capacity : Nat) : (new capacity : Seam σ β).Following where
  one := Nat.zero_le 1
  once := Nat.le_refl 0
  stays := List.not_mem_nil
  live := rfl
  sink _ h := by contradiction
  deaf _ := ⟨fun _ h => absurd h List.not_mem_nil, rfl, .inl rfl⟩
  exited h := by cases h
  ahead := ⟨0, fun _ h => by contradiction, fun _ h => by contradiction, Nat.le_refl 0, rfl⟩
  unmarked _ := rfl
  marked := Nat.le_refl 0
  clear h := by contradiction
  taken _ h := by cases h

namespace Following

variable {s : Seam σ β}
variable {fanned : List (Waiting σ β)}
variable {f : Stream σ β → Stream σ β} {k : Nat}

theorem unregistered (h : s.Following) (hheld : s.wire.holder ≠ []) : s.registered = false := by
  have honce := h.once
  have hone := h.one
  have hpos := List.length_pos_iff.mpr hheld
  rw [List.length_append] at honce
  split at honce
  · omega
  · simpa using ‹¬s.registered = true›

theorem head_le (hsound : s.Sound) {r : Resume} (hr : s.wire.snapshot = some r) :
    r.start + r.bytes.length = r.head ∧ r.head ≤ s.produced.length := by
  have hwire := hsound.wire
  have hheld : Snapshot s.produced s.waiting r := by
    cases hs : s.wire with
    | free => simp [hs, Wire.snapshot] at hr
    | resumed k requested r' =>
      rw [hs] at hwire hr
      cases hr
      exact hwire
    | answered k requested r' ended =>
      rw [hs] at hwire hr
      cases hr
      exact hwire.1
  have hend := hheld.placed.end_le
  rw [hheld.head] at hend
  exact ⟨hheld.head, hend⟩

section

variable (h : s.Following)
include h

theorem append (hsound : s.Sound) (chunk : List UInt8) (sniffed : List σ)
    (blocks : List β) : (s.append chunk sniffed blocks).Following := by
  unfold Seam.append
  split
  case isTrue => exact h
  case isFalse =>
    have hhead : s.ring.head = s.produced.length := hsound.ring.head_eq
    have hmarked := h.marked
    refine { h with marked := ?_, clear := ?_, taken := ?_ }
    · simp only [List.length_append]
      omega
    · grind
    · intro r hr w hw _
      cases hw
      simp only [hhead]
      exact (head_le hsound hr).2

theorem fanOut_registered (hsound : s.Sound) {w : Waiting σ β}
    (hwaiting : s.waiting = some w) (hregistered : s.registered = true) (hconserves : s.Conserves fanned) :
    let s' := { s with
      waiting := none
      link := s.link ++ outputFrames w
      mark := max s.mark (w.offset + w.bytes.length) }
    s'.Following ∧ s'.Conserves (fanned ++ [w]) := by
  obtain ⟨-, hend⟩ := hsound.waiting w hwaiting
  have hclear := h.clear hregistered w hwaiting
  have hrunning : s.pumpEnded = false := by
    cases hended : s.pumpEnded with
    | false => rfl
    | true =>
      have hnone := hsound.drained hended
      rw [hwaiting] at hnone
      cases hnone
  have hhears : s.sink ≠ none := by
    intro hnone
    obtain ⟨-, -, hzero | hended⟩ := h.deaf hnone
    · have honce := h.once
      rw [if_pos hregistered] at honce
      omega
    · rw [hrunning] at hended
      cases hended
  have hnoExit : .exited ∉ s.link := fun hmem => by
    have hended := h.exited hmem
    rw [hrunning] at hended
    cases hended
  obtain ⟨reach, hexpected, hacceptor, hahead⟩ := h.ahead
  have hahead' : Ahead (max s.mark (w.offset + w.bytes.length)) reach
      (s.streams 0).guarded.pendingBlocks (s.link ++ outputFrames w) :=
    hahead.append (fun hmem => absurd hmem hnoExit) fun reach' hreach' =>
      ahead_outputFrames hreach' (Nat.le_max_left ..) (Nat.le_max_right ..) hclear
  constructor
  · refine { h with deaf := ?_, exited := ?_, ahead := ?_, unmarked := ?_, marked := ?_,
                    clear := ?_, taken := ?_ }
    · exact fun hnone => absurd hnone hhears
    · intro hmem
      rcases List.mem_append.mp hmem with hmem | hmem
      · exact h.exited hmem
      · unfold outputFrames eventFrames at hmem
        cases hs : w.sniffed.isEmpty <;> cases hb : w.blocks.isEmpty <;> simp [hs, hb] at hmem
    · exact ⟨reach, hexpected, hacceptor, hahead'⟩
    · simp [hregistered]
    · have hmarked := h.marked
      dsimp only
      omega
    · intro _ w' hw'
      cases hw'
    · intro r _ w' hw'
      cases hw'
  · have hlink := hahead.awaiting_append (outputFrames w)
    rw [awaiting_outputFrames] at hlink
    unfold Conserves at hconserves ⊢
    rw [hlink, ← List.append_assoc, hconserves, fannedBlocks_append]
    simp [fannedBlocks]

theorem fanOut (hsound : s.Sound) (hconserves : s.Conserves fanned) :
    s.fanOut.Following ∧ s.fanOut.Conserves (fanned ++ Tap.sends s .fanOut) := by
  cases hwaiting : s.waiting with
  | none => simpa [Seam.fanOut, Tap.sends, hwaiting] using ⟨h, hconserves⟩
  | some w =>
    cases hwire : s.wire with
    | resumed k requested' r =>
      simpa [Seam.fanOut, Tap.sends, hwire] using ⟨h, hconserves⟩
    | answered k requested' r ended =>
      simpa [Seam.fanOut, Tap.sends, hwire] using ⟨h, hconserves⟩
    | free =>
      by_cases hregistered : s.registered = true
      · have hnext := h.fanOut_registered hsound hwaiting hregistered hconserves
        simpa [Seam.fanOut, Tap.sends, hwaiting, hwire, hregistered] using hnext
      · have hsame : s.fanOut = { s with waiting := none } := by
          simp [Seam.fanOut, hwaiting, hwire, hregistered]
        have hnone : Tap.sends s .fanOut = [] := by
          simp [Tap.sends, hwaiting, hwire, hregistered]
        rw [hsame, hnone, List.append_nil]
        refine ⟨{ h with clear := ?_, taken := ?_ }, hconserves⟩
        · intro _ w' hw'
          cases hw'
        · intro r _ w' hw'
          cases hw'

theorem notify (hconserves : s.Conserves fanned) : s.notify.Following ∧ s.notify.Conserves fanned := by
  unfold Seam.notify
  split
  · split
    · rename_i hready
      have hended : s.pumpEnded = true := by simpa using (Bool.and_eq_true_iff.mp hready).1
      have hquiet : NoBlocks [(.exited : Frame σ β)] := fun events hmem => by simp at hmem
      obtain ⟨reach, hexpected, hacceptor, hahead⟩ := h.ahead
      constructor
      · refine { h with deaf := ?_, exited := fun _ => hended, ahead := ?_ }
        · intro hnone
          obtain ⟨hlink, hpending, hrest⟩ := h.deaf hnone
          exact ⟨noBlocks_append.mpr ⟨hlink, hquiet⟩, hpending, hrest⟩
        · refine ⟨reach, hexpected, hacceptor, hahead.append (fun _ => hquiet) ?_⟩
          exact fun reach' hreach' => ⟨rfl, fun _ hmem => absurd hmem List.not_mem_nil, hreach', rfl⟩
      · have hlink := hahead.awaiting_append [.exited]
        unfold Conserves at hconserves ⊢
        rw [hlink]
        simpa [awaiting] using hconserves
    · exact ⟨h, hconserves⟩
  · exact ⟨h, hconserves⟩

theorem serve (hclear : s.Clear .serve) : s.serve.Following := by
  unfold Seam.serve
  split
  · rename_i rest hwire hrequests
    exact absurd (by rw [hrequests]; exact List.mem_cons_self ..) h.stays
  · rename_i k requested' rest hwire hrequests
    have hnone : ∀ w ∈ s.waiting, w.blocks = [] := by
      have hall := hclear (by simp [subscribing, hwire, hrequests])
      intro w hw
      rw [Option.mem_def.mp hw] at hall
      simpa using hall
    have honce := h.once
    refine { h with once := ?_, stays := ?_, taken := ?_ }
    · simpa [hwire, hrequests, requested, Wire.holder] using honce
    · intro hmem
      exact h.stays (by rw [hrequests]; exact List.mem_cons_of_mem _ hmem)
    · grind
  · exact h

theorem readEnded : s.readEnded.Following := by
  unfold Seam.readEnded
  split
  · rename_i k requested' r hwire
    refine { h with once := ?_, taken := ?_ }
    · simpa [hwire, Wire.holder] using h.once
    · intro r' hr'
      exact h.taken r' (by rw [hwire]; exact hr')
  · exact h

theorem ship (hsound : s.Sound) (limit : Nat) (sniffed : List σ) (hconserves : s.Conserves fanned) :
    (s.ship limit sniffed).Following ∧ (s.ship limit sniffed).Conserves fanned := by
  unfold Seam.ship
  split
  · rename_i k requested' r ended hwire
    have hsnapshot : s.wire.snapshot = some r := by rw [hwire]; rfl
    obtain ⟨hend, hhead⟩ := head_le hsound hsnapshot
    have hunregistered := h.unregistered (by rw [hwire]; exact List.cons_ne_nil _ _)
    have hmark := h.unmarked hunregistered
    have hquiet : NoBlocks (.reply k ⟨r.start, r.head, r.isLossy requested', ended⟩ ::
        writeBacklog limit r sniffed : List (Frame σ β)) := by
      intro events hmem
      rcases List.mem_cons.mp hmem with hmem | hmem
      · cases hmem
      · unfold writeBacklog eventFrames at hmem
        split at hmem
        · exact noBlocks_backlogFrames _ _ events hmem
        · simp only [List.isEmpty_nil, if_true, List.append_nil, List.cons_append, List.nil_append,
            List.mem_cons, reduceCtorEq, false_or] at hmem
          exact noBlocks_backlogFrames _ _ events hmem
    obtain ⟨reach, hexpected, hacceptor, hahead⟩ := h.ahead
    have hahead' : Ahead r.head reach (s.streams 0).guarded.pendingBlocks
        (s.link ++ (.reply k ⟨r.start, r.head, r.isLossy requested', ended⟩ ::
          writeBacklog limit r sniffed)) := by
      refine hahead.append (fun _ => hquiet) fun reach' hreach' => ?_
      refine ahead_writeBacklog limit sniffed ?_ (Nat.le_of_eq hend)
      dsimp only
      omega
    constructor
    · refine { h with once := ?_, deaf := ?_, exited := ?_, ahead := ?_, unmarked := ?_,
                      marked := hhead, clear := ?_, taken := ?_ }
      · have honce := h.once
        simp only [hwire, Wire.holder, hunregistered, List.length_append, List.length_cons,
          List.length_nil, Bool.false_eq_true, if_false] at honce
        simpa [Wire.holder] using honce
      · intro hnone
        obtain ⟨hlink, hpending, hrest⟩ := h.deaf hnone
        exact ⟨noBlocks_append.mpr ⟨hlink, hquiet⟩, hpending, hrest⟩
      · intro hmem
        rcases List.mem_append.mp hmem with hmem | hmem
        · exact h.exited hmem
        · rcases List.mem_cons.mp hmem with hmem | hmem
          · cases hmem
          · exact absurd hmem (exited_notMem_writeBacklog limit r sniffed)
      · exact ⟨reach, hexpected, hacceptor, hahead'⟩
      · intro hfalse
        cases hfalse
      · intro _ w hw hblocks
        exact h.taken r hsnapshot w hw hblocks
      · intro r' hr'
        cases hr'
    · have hlink := hahead.awaiting_append (.reply k ⟨r.start, r.head, r.isLossy requested', ended⟩ ::
        writeBacklog limit r sniffed)
      rw [awaiting_noBlocks hquiet, List.append_nil] at hlink
      unfold Conserves at hconserves ⊢
      rw [hlink]
      exact hconserves
  · exact ⟨h, hconserves⟩

theorem start (hzero : s.started = 0) (fromOffset : Nat)
    (hfanned : fanned = []) (hconserves : s.Conserves fanned) :
    (s.start fromOffset).Following ∧ (s.start fromOffset).Conserves fanned := by
  have hsilent : s.sink = none := by
    cases hsink : s.sink with
    | none => rfl
    | some k =>
      have hone := (h.sink k hsink).2
      omega
  obtain ⟨hlink, hpending, -⟩ := h.deaf hsilent
  obtain ⟨reach, -, -, hahead⟩ := h.ahead
  rw [hpending] at hahead
  have honce := h.once
  have hstreams : (s.start fromOffset).streams 0 = { guarded := { started := true } } := by
    rw [start_eq, ← hzero]
    exact s.modify_self _ fun _ => { guarded := { started := true } }
  constructor
  · refine
      { one := ?_
        once := ?_
        stays := ?_
        live := by rw [hstreams]
        sink := ?_
        deaf := fun hnone => by cases hnone
        exited := h.exited
        ahead := ?_
        unmarked := h.unmarked
        marked := h.marked
        clear := h.clear
        taken := h.taken }
    · rw [start_eq]
      dsimp only
      omega
    · have hqueued : (requested (s.requests ++ [.subscribe s.started fromOffset])).length =
          (requested s.requests).length + 1 := by
        simp [requested]
      rw [List.length_append] at honce
      change (requested (s.requests ++ [.subscribe s.started fromOffset]) ++ s.wire.holder).length +
        (if s.registered then 1 else 0) ≤ s.started + 1
      rw [List.length_append, hqueued]
      omega
    · intro hmem
      rcases List.mem_append.mp hmem with hmem | hmem
      · exact h.stays hmem
      · simp at hmem
    · grind [start_eq]
    · rw [hstreams]
      exact ⟨reach, fun _ hnone => (by cases hnone), fun _ hnone => (by cases hnone), hahead⟩
  · subst hfanned
    have hnothing : handedBlocks s.reader.calls = [] ∧ awaiting [] s.link = [] := by
      simp only [Conserves, hpending, handedBlocks_append, fannedBlocks, List.flatMap_nil,
        List.append_eq_nil_iff] at hconserves
      exact ⟨hconserves.1.2, hconserves.2⟩
    unfold Conserves
    rw [hstreams]
    change handedBlocks ([] ++ s.reader.calls) ++ awaiting [] s.link = _
    rw [List.nil_append, hnothing.1, hnothing.2]
    rfl

theorem adjust (hlive : (f (s.streams k)).guarded.stopped = (s.streams k).guarded.stopped)
    (hpending : (f (s.streams k)).guarded.pendingBlocks = (s.streams k).guarded.pendingBlocks)
    (hahead : k = 0 → ∃ reach,
      (∀ expected, (f (s.streams 0)).guarded.expectedOffset = some expected → expected ≤ reach) ∧
      (∀ position, (f (s.streams 0)).acceptor = .replied position → position.start ≤ reach) ∧
      Ahead s.mark reach (s.streams 0).guarded.pendingBlocks s.link) :
    (s.modify k f).Following := by
  by_cases hk : 0 = k
  · subst hk
    refine { h with live := ?_, deaf := ?_, ahead := ?_ }
    · rw [modify_self, hlive]
      exact h.live
    · rw [modify_self, hpending]
      exact h.deaf
    · rw [modify_self, hpending]
      exact hahead rfl
  · refine { h with live := ?_, deaf := ?_, ahead := ?_ }
    · rw [modify_other _ hk]
      exact h.live
    · rw [modify_other _ hk]
      exact h.deaf
    · rw [modify_other _ hk]
      exact h.ahead

theorem aside (hlive : (f (s.streams k)).guarded.stopped = (s.streams k).guarded.stopped)
    (hpending : (f (s.streams k)).guarded.pendingBlocks = (s.streams k).guarded.pendingBlocks)
    (hexpected : (f (s.streams k)).guarded.expectedOffset = (s.streams k).guarded.expectedOffset)
    (hacceptor : ∀ position, (f (s.streams k)).acceptor = .replied position →
      (s.streams k).acceptor = .replied position) :
    (s.modify k f).Following := by
  refine h.adjust hlive hpending ?_
  rintro rfl
  obtain ⟨reach, hbefore, hreplied, hahead⟩ := h.ahead
  refine ⟨reach, ?_, fun position hposition => hreplied position (hacceptor position hposition),
    hahead⟩
  rw [hexpected]
  exact hbefore

end

end Following

/-- A change to one stream that keeps its pending events and what its calls
hand on. -/
theorem Conserves.modify (h : s.Conserves fanned) {k : Nat} {f : Stream σ β → Stream σ β}
    (hpending : (f (s.streams k)).guarded.pendingBlocks = (s.streams k).guarded.pendingBlocks)
    (hcalls : handedBlocks (f (s.streams k)).calls = handedBlocks (s.streams k).calls) :
    (s.modify k f).Conserves fanned := by
  unfold Conserves at h ⊢
  by_cases hk : 0 = k
  · subst hk
    rw [modify_self, hpending, handedBlocks_append, hcalls, ← handedBlocks_append]
    exact h
  · rw [modify_other _ hk]
    exact h

theorem Conserves.turn (h : s.Conserves fanned)
    {reader : Reader σ β} (hcalls : reader.calls = s.reader.calls) :
    Conserves { s with reader } fanned := by
  unfold Conserves at h ⊢
  rw [hcalls]
  exact h

namespace Following

variable {s : Seam σ β}
variable {fanned : List (Waiting σ β)}

theorem overlap_eq_zero {g : Guarded σ β} {reach offset : Nat}
    (hexpected : ∀ expected, g.expectedOffset = some expected → expected ≤ reach)
    (hreach : reach ≤ offset) : g.overlap offset = 0 := by
  unfold Guarded.overlap
  split
  · rfl
  · grind

section

variable (h : s.Following)
include h

theorem deliver (hconserves : s.Conserves fanned)
    (name : String) (hidle : s.reader = .idle) {offset : Nat} {payload : List UInt8}
    {rest : List (Frame σ β)} (hlink : s.link = .output offset payload :: rest) (hsink : s.sink ≠ none) :
    let s' := ({ s with link := rest } : Seam σ β).deliver name 0 offset payload
    s'.Following ∧ s'.Conserves fanned := by
  obtain ⟨reach, hexpected, hreplied, hahead⟩ := h.ahead
  rw [hlink] at hahead
  obtain ⟨hbehind, hrest⟩ := hahead
  obtain ⟨handover, hhandover, hcalls⟩ := Guarded.handedBlocks_bytes name h.live payload
    fun hpending => overlap_eq_zero hexpected (hbehind hpending)
  have hpending := (s.streams 0).guarded.pendingBlocks_bytes name offset payload
  have hkept : ((s.streams 0).guarded.bytes name offset payload).1.stopped =
      (s.streams 0).guarded.stopped := (Guarded.kept_bytes offset payload).1
  have hafter : ((s.streams 0).guarded.bytes name offset payload).1.expectedOffset = _ :=
    Guarded.expected_bytes offset payload
  rw [h.live] at hafter
  simp only [Seam.deliver, hhandover]
  have hself : ∀ f : Stream σ β → Stream σ β,
      (({ s with link := rest } : Seam σ β).modify 0 f).streams 0 = f (s.streams 0) :=
    fun f => modify_self _ 0 f
  constructor
  · refine
      { one := h.one
        once := h.once
        stays := h.stays
        live := by exact hkept.trans h.live
        sink := h.sink
        deaf := fun hnone => absurd hnone hsink
        exited := fun hmem => h.exited (by rw [hlink]; exact List.mem_cons_of_mem _ hmem)
        ahead := ?_
        unmarked := h.unmarked
        marked := h.marked
        clear := h.clear
        taken := h.taken }
    rw [hself]
    rw [hpending, hafter]
    refine ⟨max reach (offset + payload.length), ?_, ?_, hrest⟩
    · grind
    · grind
  · unfold Conserves at hconserves ⊢
    rw [hself]
    rw [hpending]
    rw [hlink, hidle] at hconserves
    simp only [Reader.calls, List.append_nil, awaiting] at hconserves
    rw [handedBlocks_append, Reader.calls, hcalls, List.append_assoc]
    exact hconserves

theorem read (hconserves : s.Conserves fanned)
    (name : String) : (s.read name).Following ∧ (s.read name).Conserves fanned := by
  unfold Seam.read
  split
  · rename_i frame rest hidle hlink
    obtain ⟨reach, hexpected, hreplied, hahead⟩ := h.ahead
    rw [hlink] at hahead
    have hexited : .exited ∈ rest → s.pumpEnded = true := fun hmem =>
      h.exited (by rw [hlink]; exact List.mem_cons_of_mem _ hmem)
    have hdeaf : s.sink = none → NoBlocks rest ∧ (s.streams 0).guarded.pendingBlocks = [] ∧
        (s.started = 0 ∨ s.pumpEnded = true) := by
      intro hnone
      obtain ⟨hquiet, hpending, hwhy⟩ := h.deaf hnone
      rw [hlink] at hquiet
      exact ⟨hquiet.tail, hpending, hwhy⟩
    -- a frame that pairs nothing and is left behind
    have hpop : ∀ reach' ≥ reach,
        awaiting (s.streams 0).guarded.pendingBlocks s.link =
          awaiting (s.streams 0).guarded.pendingBlocks rest →
        Ahead s.mark reach' (s.streams 0).guarded.pendingBlocks rest →
        Following { s with link := rest } ∧ Conserves { s with link := rest } fanned := by
      intro reach' hreach hawaiting hrest
      refine ⟨{ h with deaf := hdeaf, exited := hexited, ahead := ⟨reach', ?_, ?_, hrest⟩ }, ?_⟩
      · exact fun expected hsome => Nat.le_trans (hexpected expected hsome) hreach
      · exact fun position hposition => Nat.le_trans (hreplied position hposition) hreach
      · unfold Conserves at hconserves ⊢
        rw [← hawaiting]
        exact hconserves
    dsimp only
    split
    · rename_i k position
      obtain ⟨hfollowing, hconserves'⟩ := hpop _ (Nat.le_max_left ..) (by rw [hlink]; rfl) hahead
      refine ⟨hfollowing.adjust rfl rfl ?_, hconserves'.modify rfl rfl⟩
      rintro rfl
      refine ⟨max reach position.start, ?_, ?_, hahead⟩
      · exact fun expected hsome => Nat.le_trans (hexpected expected hsome) (Nat.le_max_left ..)
      · grind
    · obtain ⟨hfollowing, hconserves'⟩ := hpop reach (Nat.le_refl _) (by rw [hlink]; rfl) hahead
      exact ⟨hfollowing.aside rfl rfl rfl fun _ hposition => hposition, hconserves'.modify rfl rfl⟩
    · rename_i events k hsink
      obtain ⟨rfl, -⟩ := h.sink k hsink
      constructor
      · refine
          { one := h.one
            once := h.once
            stays := h.stays
            live := by exact h.live
            sink := h.sink
            deaf := fun hnone => by rw [show s.sink = none from hnone] at hsink; cases hsink
            exited := hexited
            ahead := ?_
            unmarked := h.unmarked
            marked := h.marked
            clear := h.clear
            taken := h.taken }
        exact ⟨reach, hexpected, hreplied, hahead⟩
      · unfold Conserves at hconserves ⊢
        rw [hlink] at hconserves
        exact hconserves
    · rename_i offset payload k hsink
      obtain ⟨rfl, -⟩ := h.sink k hsink
      exact h.deliver hconserves name hidle hlink (by rw [hsink]; exact Option.some_ne_none 0)
    · obtain ⟨hpending, hquiet, hrest⟩ := hahead
      have hended := h.exited (by rw [hlink]; exact List.mem_cons_self ..)
      obtain ⟨hfollowing, hconserves'⟩ := hpop reach (Nat.le_refl _) (by rw [hlink]; rfl) hrest
      constructor
      · refine { hfollowing with sink := ?_, deaf := ?_ }
        · intro k' hk'
          cases hk'
        · exact fun _ => ⟨hquiet, hpending, .inr hended⟩
      · rw [hidle] at hconserves'
        exact hconserves'
    · rename_i frame _ _ hnoReply hsink
      obtain ⟨hquiet, hpending, -⟩ := h.deaf hsink
      cases frame with
      | reply k position => exact absurd rfl (hnoReply k position)
      | blocks events => exact absurd (by rw [hlink]; exact List.mem_cons_self ..) (hquiet events)
      | sniff events => exact hpop reach (Nat.le_refl _) (by rw [hlink]; rfl) hahead
      | exited => exact hpop reach (Nat.le_refl _) (by rw [hlink]; rfl) hahead.2.2
      | output offset payload =>
        refine hpop _ (Nat.le_max_left ..) ?_ (by rw [hpending]; exact hahead.2)
        rw [hlink, hpending]
        rfl
  · exact ⟨h, hconserves⟩

theorem accept (hconserves : s.Conserves fanned) (name : String) (k : Nat) :
    (s.accept name k).Following ∧ (s.accept name k).Conserves fanned := by
  unfold Seam.accept
  split
  · rename_i position hposition
    refine ⟨h.adjust rfl rfl ?_, hconserves.modify rfl ?_⟩
    · rintro rfl
      obtain ⟨reach, hexpected, hreplied, hahead⟩ := h.ahead
      refine ⟨reach, ?_, ?_, hahead⟩
      · intro expected hsome
        simp only [Option.some.injEq] at hsome
        subst hsome
        cases hbefore : (s.streams 0).guarded.expectedOffset with
        | none => exact hreplied position hposition
        | some expected => exact hexpected expected hbefore
      · grind
    · simp only [handedBlocks_append]
      split
      · simp
      · simp
  · exact ⟨h, hconserves⟩

theorem hand (horderly : s.Orderly)
    (hconserves : s.Conserves fanned) : s.hand.Following ∧ s.hand.Conserves fanned := by
  unfold Seam.hand
  split
  · rename_i k handover hreader
    have hlt := horderly.reader k (by rw [hreader]; rfl)
    have hone := h.one
    obtain rfl : k = 0 := by omega
    have hfollowing : (s.modify 0 fun t => { t with calls := t.calls ++ handover.calls }).Following :=
      h.aside rfl rfl rfl fun _ hposition => hposition
    refine ⟨{ hfollowing with }, ?_⟩
    have hidle : (if handover.last then Reader.finishing 0 else .idle : Reader σ β).calls = [] := by
      split <;> rfl
    unfold Conserves at hconserves ⊢
    rw [hreader] at hconserves
    rw [hidle, modify_self, List.append_nil]
    exact hconserves
  · exact ⟨h, hconserves⟩

theorem readerFinish (hconserves : s.Conserves fanned) :
    s.readerFinish.Following ∧ s.readerFinish.Conserves fanned := by
  unfold Seam.readerFinish
  split
  · rename_i k hreader
    have hfollowing : (s.modify k fun t => { t with guarded := (s.streams k).guarded.finish.2 }).Following :=
      h.aside rfl rfl rfl fun _ hposition => hposition
    refine ⟨{ hfollowing with }, ?_⟩
    refine Conserves.turn (hconserves.modify rfl rfl) ?_
    change _ = s.reader.calls
    rw [hreader]
    split <;> rfl
  · exact ⟨h, hconserves⟩

theorem readerEnd
    (hconserves : s.Conserves fanned) : s.readerEnd.Following ∧ s.readerEnd.Conserves fanned := by
  unfold Seam.readerEnd
  split
  · rename_i k hreader
    have hfollowing : (s.modify k fun t => { t with calls := t.calls ++ [.ended] }).Following :=
      h.aside rfl rfl rfl fun _ hposition => hposition
    refine ⟨{ hfollowing with }, ?_⟩
    refine Conserves.turn (hconserves.modify rfl (by simp)) ?_
    change _ = s.reader.calls
    rw [hreader]
    rfl
  · exact ⟨h, hconserves⟩

theorem step (hsound : s.Sound) (horderly : s.Orderly) (hconserves : s.Conserves fanned)
    (hfanned : s.started = 0 → fanned = []) (limit : Nat) (name : String) {op : SeamOp σ β}
    (hone : s.OneSubscriber op) (hclear : s.Clear op) : (s.step limit name op).Following ∧
      (s.step limit name op).Conserves (fanned ++ Tap.sends s op) := by
  have hnothing : op ≠ .fanOut → fanned ++ Tap.sends s op = fanned := by
    intro hne
    cases op with
    | fanOut => exact absurd rfl hne
    | _ => exact List.append_nil fanned
  cases op with
  | append chunk sniffed blocks =>
    rw [hnothing (by simp)]
    refine ⟨h.append hsound chunk sniffed blocks, ?_⟩
    simp only [Seam.step, Seam.append]
    split <;> exact hconserves
  | fanOut => exact h.fanOut hsound hconserves
  | finishPump =>
    rw [hnothing (by simp)]
    simp only [Seam.step, Seam.finishPump]
    split
    · exact ⟨h, hconserves⟩
    · refine ⟨{ h with deaf := ?_, exited := fun _ => rfl }, hconserves⟩
      intro hnone
      obtain ⟨hquiet, hpending, -⟩ := h.deaf hnone
      exact ⟨hquiet, hpending, .inr rfl⟩
  | notify =>
    rw [hnothing (by simp)]
    exact h.notify hconserves
  | serve =>
    rw [hnothing (by simp)]
    refine ⟨h.serve hclear, ?_⟩
    simp only [Seam.step, Seam.serve]
    split <;> exact hconserves
  | readEnded =>
    rw [hnothing (by simp)]
    refine ⟨h.readEnded, ?_⟩
    simp only [Seam.step, Seam.readEnded]
    split <;> exact hconserves
  | ship sniffed =>
    rw [hnothing (by simp)]
    exact h.ship hsound limit sniffed hconserves
  | start fromOffset =>
    rw [hnothing (by simp)]
    exact h.start hone fromOffset (hfanned hone) hconserves
  | stop k => exact hone.elim
  | read =>
    rw [hnothing (by simp)]
    exact h.read hconserves name
  | hand =>
    rw [hnothing (by simp)]
    exact h.hand horderly hconserves
  | readerFinish =>
    rw [hnothing (by simp)]
    exact h.readerFinish hconserves
  | readerEnd =>
    rw [hnothing (by simp)]
    exact h.readerEnd hconserves
  | accept k =>
    rw [hnothing (by simp)]
    exact h.accept hconserves name k
  | acceptFinish k =>
    rw [hnothing (by simp)]
    simp only [Seam.step, Seam.acceptFinish]
    split
    · refine ⟨h.aside rfl rfl rfl ?_, hconserves.modify rfl rfl⟩
      intro position hposition
      split at hposition <;> cases hposition
    · exact ⟨h, hconserves⟩
  | acceptEnd k =>
    rw [hnothing (by simp)]
    simp only [Seam.step, Seam.acceptEnd]
    split
    · refine ⟨h.aside rfl rfl rfl ?_, hconserves.modify rfl (by simp)⟩
      intro position hposition
      cases hposition
    · exact ⟨h, hconserves⟩

theorem sends_eq_nil (hzero : s.started = 0) (op : SeamOp σ β) : Tap.sends s op = [] := by
  have hunregistered : s.registered = false := by
    have honce := h.once
    cases hregistered : s.registered with
    | false => rfl
    | true =>
      rw [hregistered, if_pos rfl] at honce
      omega
  unfold Tap.sends
  split
  · split
    · simp [hunregistered]
    · rfl
  · rfl

end

end Following

theorem started_le_step (s : Seam σ β) (limit : Nat) (name : String) (op : SeamOp σ β) :
    s.started ≤ (s.step limit name op).started := by
  cases op with
  | start fromOffset => exact Nat.le_succ s.started
  | read =>
    simp only [Seam.step, Seam.read, Seam.deliver]
    repeat' split
    all_goals exact Nat.le_refl _
  | _ =>
    simp only [Seam.step, Seam.append, Seam.fanOut, Seam.finishPump, Seam.notify, Seam.serve,
      Seam.readEnded, Seam.ship, Seam.stop, Seam.hand, Seam.readerFinish, Seam.readerEnd,
      Seam.accept, Seam.acceptFinish, Seam.acceptEnd]
    repeat' split
    all_goals exact Nat.le_refl _

end Seam

namespace Tap

variable {t : Tap σ β}

/-- The invariant of a run. -/
structure Watched (t : Tap σ β) : Prop where
  following : t.seam.Following
  sound : t.seam.Sound
  orderly : t.seam.Orderly
  conserves : t.seam.Conserves t.fanned
  quiet : t.seam.started = 0 → t.fanned = []

/-- The one stream of the pane goes on and its snapshot is clear. -/
def Ok (t : Tap σ β) (op : SeamOp σ β) : Prop := t.seam.OneSubscriber op ∧ t.seam.Clear op

instance (t : Tap σ β) (op : SeamOp σ β) : Decidable (t.Ok op) :=
  inferInstanceAs (Decidable (_ ∧ _))

theorem Watched.step (h : t.Watched) (limit : Nat) (name : String)
    {op : SeamOp σ β} (hok : t.Ok op) : (t.step limit name op).Watched := by
  obtain ⟨hfollowing, hconserves⟩ := h.following.step h.sound h.orderly h.conserves h.quiet limit
    name hok.1 hok.2
  refine ⟨hfollowing, h.sound.step limit name op, h.orderly.step limit name op, hconserves, ?_⟩
  intro hzero
  have hle := t.seam.started_le_step limit name op
  have hbefore : t.seam.started = 0 := by
    change (t.seam.step limit name op).started = 0 at hzero
    omega
  simp only [Tap.step, h.quiet hbefore, h.following.sends_eq_nil hbefore op, List.append_nil]

/-- The block events of the chunks fanned out to the subscription have reached
its sink at most once, in their order, each on the call that hands its
chunk's bytes on; and all of them have once nothing is on the way. -/
structure BlocksReach (t : Tap σ β) : Prop where
  once : handedBlocks (t.seam.streams 0).calls <+: fannedBlocks t.fanned
  reached : t.seam.link = [] → t.seam.reader.calls = [] →
    handedBlocks (t.seam.streams 0).calls = fannedBlocks t.fanned

theorem Watched.blocksReach (h : t.Watched) : t.BlocksReach := by
  have hconserves := h.conserves
  unfold Seam.Conserves at hconserves
  rw [handedBlocks_append, List.append_assoc] at hconserves
  refine ⟨⟨_, hconserves⟩, fun hlink hcalls => ?_⟩
  rw [hlink, hcalls] at hconserves
  simpa [awaiting] using hconserves

/-- In a run whose one subscription takes its snapshot between chunks, as far
as they have block events, the events reach the sink. -/
theorem blocks_reach (capacity limit : Nat) (name : String) {ops : List (SeamOp σ β)}
    (hops : Meets (step limit name) Ok (new capacity) ops) :
    Throughout (step limit name) BlocksReach (new capacity : Tap σ β) ops := by
  have hinit : (new capacity : Tap σ β).Watched :=
    ⟨Seam.following_new capacity, Seam.sound_new capacity, Seam.orderly_new capacity, rfl,
      fun _ => rfl⟩
  exact (hops.throughout Watched (fun t op hok ht => ht.step limit name hok) hinit).imp
    fun _ ht => ht.blocksReach

/-- A chunk before the subscribe, and one with a block event after it. -/
theorem blocks_reach_after_backlog :
    Throughout (step 64 "p") BlocksReach (new 8 : Tap Unit Nat)
      [.append [0x61] [] [], .fanOut, .start 0, .serve, .readEnded, .ship [], .append [0x62] [] [7],
        .fanOut, .read, .accept 0, .read, .hand, .read, .read, .hand] :=
  blocks_reach 8 64 "p" (by decide +kernel)

/-- The snapshot takes a chunk with a block event before the chunk is fanned
out: the live copy that carries the event is dropped with it. -/
theorem blocks_dropped :
    ¬∀ (capacity limit : Nat) (name : String) (ops : List (SeamOp Unit Nat)),
      Meets (step limit name) (fun t op => t.seam.OneSubscriber op) (new capacity) ops →
      Throughout (step limit name) BlocksReach (new capacity) ops := by
  intro h
  have hlast := (h 8 64 "p" [.append [0x61] [] [7], .start 0, .serve, .readEnded, .ship [], .fanOut,
    .read, .accept 0, .read, .hand, .read, .read, .hand] (by decide +kernel)).last
  have hall := hlast.reached (by decide +kernel) (by decide +kernel)
  exact absurd hall (by decide +kernel)

end Tap

end SlopDesk.HostPane
