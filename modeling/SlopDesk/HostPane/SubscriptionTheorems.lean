/-
SlopDesk.HostPane.SubscriptionTheorems — what crosses the connection is the
pane's own output.

§1 is what the small functions of a stream do. §2 is the invariant of every
run, whatever the streams do to each other: each frame's bytes sit in the
pane's output at the offset it carries, and a position that says the pane
has ended names the end of it. §3 follows the requests: a stream is asked
for once, so its own thread takes one answer.
-/
import SlopDesk.HostPane.Subscription

namespace SlopDesk.HostPane

open SlopDesk.Base
open SlopDesk.Superd

variable {σ β : Type}
variable {name : String} {g : Guarded σ β}

/-! ## §1 Small functions -/

@[simp] theorem payloads_append (a b : List (SinkCall σ β)) :
    payloads (a ++ b) = payloads a ++ payloads b := by
  simp [payloads]

@[simp] theorem payloads_ended : payloads [(.ended : SinkCall σ β)] = [] := rfl

@[simp] theorem payloads_gap (name : String) (g : Guarded σ β) (offset : Nat) :
    payloads (g.gap name offset) = [] := by
  unfold Guarded.gap
  split
  case h_1 => rfl
  case h_2 => split <;> rfl

theorem Guarded.bytes_stopped (h : g.stopped = true) (offset : Nat)
    (payload : List UInt8) : (g.bytes name offset payload).2 = none := by
  simp [Guarded.bytes, h]

theorem Guarded.bytes_live (h : g.stopped = false) (offset : Nat)
    (payload : List UInt8) : ∃ handover, (g.bytes name offset payload).2 = some handover ∧
      payloads handover.calls = payload.drop (g.overlap offset) ∧
      handover.last = (g.endsAt.any fun stop => offset + payload.length ≥ stop) := by
  refine ⟨_, by simp only [Guarded.bytes, h]; rfl, ?_, rfl⟩
  rw [payloads_append, payloads_gap, List.nil_append]
  split
  case isTrue => simp [payloads]
  case isFalse hquiet =>
    -- nothing is passed on only when nothing is new
    cases hfresh : payload.drop (g.overlap offset) with
    | nil => rfl
    | cons b bs => simp [hfresh] at hquiet

theorem Guarded.expected_bytes (offset : Nat)
    (payload : List UInt8) : (g.bytes name offset payload).1.expectedOffset
      = if g.stopped then g.expectedOffset
        else some (match g.expectedOffset with
          | none => offset + payload.length
          | some expected => max expected (offset + payload.length)) := by
  cases hstopped : g.stopped with
  | true => simp [Guarded.bytes, hstopped]
  | false =>
    cases hexpected : g.expectedOffset with
    | none => simp [Guarded.bytes, hstopped, hexpected]
    | some expected =>
      by_cases hmoved : offset + payload.length > expected
      · simp [Guarded.bytes, hstopped, hexpected, hmoved, Nat.max_eq_right (Nat.le_of_lt hmoved)]
      · simp [Guarded.bytes, hstopped, hexpected, hmoved, Nat.max_eq_left (Nat.not_lt.mp hmoved)]

theorem Guarded.kept_bytes (offset : Nat) (payload : List UInt8) :
    (g.bytes name offset payload).1.stopped = g.stopped ∧
    (g.bytes name offset payload).1.endsAt = g.endsAt ∧
    (g.bytes name offset payload).1.reportedEof = g.reportedEof := by
  cases hstopped : g.stopped <;> simp [Guarded.bytes, hstopped]

/-- The output frames of a run of frames. -/
def outputs (frames : List (Frame σ β)) : List (Nat × List UInt8) :=
  frames.filterMap fun frame =>
    match frame with
    | .output offset payload => some (offset, payload)
    | _ => none

/-- The replies of a run of frames. -/
def replies (frames : List (Frame σ β)) : List (Nat × StreamPosition) :=
  frames.filterMap fun frame =>
    match frame with
    | .reply stream position => some (stream, position)
    | _ => none

@[simp] theorem outputs_append (a b : List (Frame σ β)) : outputs (a ++ b) = outputs a ++ outputs b :=
  List.filterMap_append
@[simp] theorem replies_append (a b : List (Frame σ β)) : replies (a ++ b) = replies a ++ replies b :=
  List.filterMap_append

theorem outputs_cons (frame : Frame σ β) (rest : List (Frame σ β)) :
    outputs (frame :: rest) = outputs [frame] ++ outputs rest := outputs_append [frame] rest
theorem replies_cons (frame : Frame σ β) (rest : List (Frame σ β)) :
    replies (frame :: rest) = replies [frame] ++ replies rest := replies_append [frame] rest

@[simp] theorem outputs_eventFrames (sniffed : List σ) (blocks : List β) :
    outputs (eventFrames sniffed blocks) = [] := by
  unfold eventFrames
  split <;> split <;> rfl

@[simp] theorem replies_eventFrames (sniffed : List σ) (blocks : List β) :
    replies (eventFrames sniffed blocks) = [] := by
  unfold eventFrames
  split <;> split <;> rfl

@[simp] theorem outputs_outputFrames (w : Waiting σ β) :
    outputs (outputFrames w) = [(w.offset, w.bytes)] := by
  rw [outputFrames, outputs_append, outputs_eventFrames]
  rfl

@[simp] theorem replies_outputFrames (w : Waiting σ β) : replies (outputFrames w) = [] := by
  rw [outputFrames, replies_append, replies_eventFrames]
  rfl

@[simp] theorem replies_backlogFrames (offset : Nat) (pieces : List (List UInt8)) :
    replies (backlogFrames offset pieces : List (Frame σ β)) = [] := by
  induction pieces generalizing offset with
  | nil => rfl
  | cons piece rest ih => exact ih (offset + piece.length)

theorem flows_backlogFrames {stream : List UInt8} {offset : Nat} {pieces : List (List UInt8)}
    (h : Placed stream offset pieces.flatten) :
    Flows stream offset (outputs (backlogFrames offset pieces : List (Frame σ β)))
      (offset + pieces.flatten.length) := by
  induction pieces generalizing offset with
  | nil => rfl
  | cons piece rest ih =>
    rw [List.flatten_cons] at h ⊢
    obtain ⟨hpiece, hrest⟩ := h.split
    refine ⟨Nat.le_refl _, hpiece, ?_⟩
    rw [Nat.max_eq_right (Nat.le_add_right ..), List.length_append, ← Nat.add_assoc]
    exact ih hrest

/-- Every piece of a flow is placed, and ends where the flow does or
before. -/
theorem mem_flows {stream : List UInt8} {a b : Nat} {pieces : List (Nat × List UInt8)}
    (h : Flows stream a pieces b) {x : Nat × List UInt8} (hx : x ∈ pieces) :
    Placed stream x.1 x.2 ∧ x.1 + x.2.length ≤ b := by
  induction pieces generalizing a with
  | nil => exact absurd hx List.not_mem_nil
  | cons piece rest ih =>
    rcases List.mem_cons.mp hx with rfl | hrest
    · have hle := h.2.2.le
      exact ⟨h.2.1, by omega⟩
    · exact ih h.2.2 hrest

namespace Seam

theorem modify_self (s : Seam σ β) (k : Nat) (f : Stream σ β → Stream σ β) :
    (s.modify k f).streams k = f (s.streams k) := if_pos rfl

theorem modify_other (s : Seam σ β) {k i : Nat} (h : i ≠ k) (f : Stream σ β → Stream σ β) :
    (s.modify k f).streams i = s.streams i := if_neg h

theorem start_eq (s : Seam σ β) (fromOffset : Nat) : s.start fromOffset =
      { s.modify s.started (fun _ => { guarded := { started := true } }) with
        started := s.started + 1
        sink := some s.started
        requests := s.requests ++ [.subscribe s.started fromOffset] } := rfl

end Seam

/-! ## §2 Whatever the streams do -/

/-- A snapshot of the ring, and where the pane has got to since. -/
structure Snapshot (produced : List UInt8) (waiting : Option (Waiting σ β)) (r : Resume) : Prop where
  placed : Placed produced r.start r.bytes
  head : r.start + r.bytes.length = r.head
  since : r.head = produced.length ∨ ∃ w, waiting = some w ∧ w.offset = r.head

/-- A position as superd answers it: if the pane has ended, its head is the
end of the output. -/
structure Answers (produced : List UInt8) (pumpEnded : Bool) (position : StreamPosition) : Prop where
  start_le : position.start ≤ position.head
  head_le : position.head ≤ produced.length
  final : position.ended = true → pumpEnded = true ∧ position.head = produced.length

/-- What the holder of the wire lock has in hand. -/
def WireHolds (produced : List UInt8) (waiting : Option (Waiting σ β)) (pumpEnded : Bool) :
    Wire → Prop
  | .free => True
  | .resumed _ _ r => Snapshot produced waiting r
  | .answered _ _ r ended =>
    Snapshot produced waiting r ∧ (ended = true → pumpEnded = true ∧ r.head = produced.length)

/-- A stream's position is one superd answered, and it is not past what the
pane produced. -/
structure Stream.Sound (produced : List UInt8) (pumpEnded : Bool) (t : Stream σ β) : Prop where
  position : ∀ position, t.position = some position → Answers produced pumpEnded position
  acceptor : ∀ position, t.acceptor = .replied position → t.position = some position
  expected : ∀ e, t.guarded.expectedOffset = some e → e ≤ produced.length

namespace Seam

/-- The invariant of every run. -/
structure Sound (s : Seam σ β) : Prop where
  ring : s.ring.Holds s.produced
  waiting : ∀ w, s.waiting = some w →
    Placed s.produced w.offset w.bytes ∧ w.offset + w.bytes.length = s.produced.length
  drained : s.pumpEnded = true → s.waiting = none
  wire : WireHolds s.produced s.waiting s.pumpEnded s.wire
  outputs : ∀ x ∈ outputs s.link, Placed s.produced x.1 x.2
  replies : ∀ x ∈ replies s.link, Answers s.produced s.pumpEnded x.2
  streams : ∀ k, (s.streams k).Sound s.produced s.pumpEnded

theorem sound_new (capacity : Nat) : (new capacity : Seam σ β).Sound where
  ring := OutputRing.holds_new capacity
  waiting _ h := by contradiction
  drained h := by contradiction
  wire := trivial
  outputs _ h := absurd h List.not_mem_nil
  replies _ h := absurd h List.not_mem_nil
  streams _ := ⟨fun _ h => by contradiction, fun _ h => by contradiction, fun _ h => by contradiction⟩

namespace Sound

variable {s : Seam σ β}

theorem append (h : s.Sound) (chunk : List UInt8) (sniffed : List σ) (blocks : List β) :
    (s.append chunk sniffed blocks).Sound := by
  unfold Seam.append
  split
  case isTrue => exact h
  case isFalse hidle =>
    obtain ⟨hwaiting, hrunning⟩ : s.waiting = none ∧ s.pumpEnded = false := by simpa using hidle
    have hhead : s.ring.head = s.produced.length := h.ring.head_eq
    have hanswers : ∀ position, Answers s.produced s.pumpEnded position →
        Answers (s.produced ++ chunk) s.pumpEnded position := by
      intro position hposition
      have hle := hposition.head_le
      refine ⟨hposition.start_le, by rw [List.length_append]; omega, fun hended => ?_⟩
      simp [hrunning] at hposition
      exact absurd (hposition.final hended).1 (by simp)
    have hsnapshot : ∀ r, Snapshot s.produced s.waiting r →
        Snapshot (s.produced ++ chunk) (some ⟨s.ring.head, chunk, sniffed, blocks⟩) r := by
      intro r hr
      refine ⟨hr.placed.grow chunk, hr.head, .inr ⟨_, rfl, ?_⟩⟩
      rcases hr.since with hsame | ⟨w, hw, _⟩
      · rw [hsame, hhead]
      · rw [hwaiting] at hw
        contradiction
    exact {
      ring := h.ring.append chunk
      waiting := by
        intro w hw
        obtain rfl := Option.some.inj hw
        have hwhole : chunk <+: (s.produced ++ chunk).drop s.produced.length := by simp
        rw [hhead]
        exact ⟨⟨by simp, hwhole⟩, by simp⟩
      drained := fun hended => absurd (hrunning.symm.trans hended) (by simp)
      wire := by
        have hwire := h.wire
        cases hheld : s.wire with
        | free => trivial
        | resumed k requested r =>
          rw [hheld] at hwire
          exact hsnapshot r hwire
        | answered k requested r ended =>
          rw [hheld] at hwire
          exact ⟨hsnapshot r hwire.1, fun hended =>
            absurd (hrunning.symm.trans (hwire.2 hended).1) (by simp)⟩
      outputs := fun x hx => (h.outputs x hx).grow chunk
      replies := fun x hx => hanswers _ (h.replies x hx)
      streams := fun k =>
        ⟨fun position hposition => hanswers _ ((h.streams k).position position hposition),
          (h.streams k).acceptor, fun e he => by
            have hle := (h.streams k).expected e he
            rw [List.length_append]
            omega⟩ }

theorem fanOut (h : s.Sound) : s.fanOut.Sound := by
  unfold Seam.fanOut
  split
  case h_2 => exact h
  case h_1 w hwaiting hfree =>
    have hwire : WireHolds s.produced (none : Option (Waiting σ β)) s.pumpEnded s.wire := by
      rw [hfree]
      trivial
    split
    case isTrue =>
      exact { h with
        waiting := fun _ hw => by contradiction
        drained := fun _ => rfl
        wire := hwire
        outputs := fun x hx => by
          simp only [outputs_append, outputs_outputFrames, List.mem_append, List.mem_singleton] at hx
          rcases hx with hold | rfl
          · exact h.outputs x hold
          · exact (h.waiting w hwaiting).1
        replies := fun x hx => by
          simp only [replies_append, replies_outputFrames, List.append_nil] at hx
          exact h.replies x hx }
    case isFalse =>
      exact { h with
        waiting := fun _ hw => by contradiction
        drained := fun _ => rfl
        wire := hwire }

theorem finishPump (h : s.Sound) : s.finishPump.Sound := by
  unfold Seam.finishPump
  split
  case isTrue => exact h
  case isFalse hidle =>
    have hwaiting : s.waiting = none := by simpa using hidle
    have hanswers : ∀ position, Answers s.produced s.pumpEnded position →
        Answers s.produced true position := fun position hposition =>
      ⟨hposition.start_le, hposition.head_le, fun hended => ⟨rfl, (hposition.final hended).2⟩⟩
    exact { h with
      drained := fun _ => hwaiting
      wire := by
        have hwire := h.wire
        cases hheld : s.wire with
        | free => trivial
        | resumed k requested r =>
          rw [hheld] at hwire
          exact hwire
        | answered k requested r ended =>
          rw [hheld] at hwire
          exact ⟨hwire.1, fun hended => ⟨rfl, (hwire.2 hended).2⟩⟩
      replies := fun x hx => hanswers _ (h.replies x hx)
      streams := fun k =>
        ⟨fun position hposition => hanswers _ ((h.streams k).position position hposition),
          (h.streams k).acceptor, (h.streams k).expected⟩ }

theorem notify (h : s.Sound) : s.notify.Sound := by
  unfold Seam.notify
  split
  case h_2 => exact h
  case h_1 =>
    split
    case isFalse => exact h
    case isTrue =>
      exact { h with
        outputs := fun x hx => h.outputs x (by simpa [HostPane.outputs] using hx)
        replies := fun x hx => h.replies x (by simpa [HostPane.replies] using hx) }

theorem serve (h : s.Sound) : s.serve.Sound := by
  unfold Seam.serve
  split
  case h_1 => exact { h with }
  case h_3 => exact h
  case h_2 hfree _ =>
    obtain ⟨hhead, hstart, hbytes⟩ := h.ring.readFrom _
    exact { h with
      wire := {
        placed := by
          rw [hbytes]
          exact Placed.drop hstart
        head := by
          rw [hbytes, hhead, List.length_drop]
          omega
        since := .inl hhead } }

theorem readEnded (h : s.Sound) : s.readEnded.Sound := by
  have hwire := h.wire
  unfold Seam.readEnded
  split
  case h_2 => exact h
  case h_1 k requested r hheld =>
    rw [hheld] at hwire
    refine { h with wire := ⟨hwire, fun hended => ⟨hended, ?_⟩⟩ }
    rcases hwire.since with hsame | ⟨w, hw, _⟩
    · exact hsame
    · rw [h.drained hended] at hw
      contradiction

theorem flows_writeBacklog {produced : List UInt8} {r : Resume} (hplaced : Placed produced r.start r.bytes)
    (hhead : r.start + r.bytes.length = r.head) (limit : Nat) (sniffed : List σ) :
    Flows produced r.start (HostPane.outputs (writeBacklog limit r sniffed : List (Frame σ β)))
      r.head := by
  have hpieces : (Blocks.chunks (max limit 1) r.bytes).flatten = r.bytes :=
    Blocks.flatten_chunks (by omega) r.bytes
  rw [writeBacklog, outputs_append, outputs_eventFrames, List.nil_append, ← hhead]
  have hflow := flows_backlogFrames (σ := σ) (β := β) (hpieces.symm ▸ hplaced)
  rwa [hpieces] at hflow

section

variable (h : s.Sound)
include h

theorem ship (limit : Nat) (sniffed : List σ) : (s.ship limit sniffed).Sound := by
  have hwire := h.wire
  unfold Seam.ship
  split
  case h_2 => exact h
  case h_1 k requested r ended hheld =>
    rw [hheld] at hwire
    obtain ⟨hsnapshot, hended⟩ := hwire
    have hend := hsnapshot.placed.end_le
    have hhead := hsnapshot.head
    exact { h with
      wire := trivial
      outputs := fun x hx => by
        rw [outputs_append] at hx
        rcases List.mem_append.mp hx with hold | hnew
        · exact h.outputs x hold
        · exact (mem_flows (flows_writeBacklog hsnapshot.placed hhead limit sniffed) hnew).1
      replies := fun x hx => by
        have hnew : HostPane.replies (writeBacklog limit r sniffed : List (Frame σ β)) = [] := by
          simp [writeBacklog]
        have hframes : HostPane.replies (.reply k ⟨r.start, r.head, r.isLossy requested, ended⟩
            :: writeBacklog limit r sniffed : List (Frame σ β))
              = [(k, ⟨r.start, r.head, r.isLossy requested, ended⟩)] := congrArg (_ :: ·) hnew
        rw [replies_append, hframes] at hx
        rcases List.mem_append.mp hx with hold | hone
        · exact h.replies x hold
        · obtain rfl := List.mem_singleton.mp hone
          exact ⟨by dsimp only; omega, by dsimp only; omega, hended⟩ }

theorem modify {k : Nat} {f : Stream σ β → Stream σ β}
    (hf : (f (s.streams k)).Sound s.produced s.pumpEnded) : (s.modify k f).Sound :=
  { h with
    streams := fun i => by
      simp only [Seam.modify]
      split
      case isTrue hsame => exact hsame ▸ hf
      case isFalse => exact h.streams i }

theorem start (fromOffset : Nat) : (s.start fromOffset).Sound := by
  have hfresh := h.modify (k := s.started) (f := fun _ => { guarded := { started := true } })
    ⟨fun _ h => by contradiction, fun _ h => by contradiction, fun _ h => by contradiction⟩
  exact { hfresh with }

theorem stop (k : Nat) : (s.stop k).Sound := by
  have hstopped := h.modify (k := k)
    (f := fun t => { t with guarded := { (s.streams k).guarded with stopped := true } })
    ⟨(h.streams k).position, (h.streams k).acceptor, (h.streams k).expected⟩
  unfold Seam.stop
  dsimp only [Guarded.stop]
  split
  case isTrue => exact { hstopped with }
  case isFalse => exact hstopped

theorem deliver (name : String) (k : Nat) {offset : Nat} {payload : List UInt8}
    (hplaced : Placed s.produced offset payload) : (s.deliver name k offset payload).Sound := by
  have hend := hplaced.end_le
  have hguarded : ∀ e, ((s.streams k).guarded.bytes name offset payload).1.expectedOffset = some e →
      e ≤ s.produced.length := by
    intro e he
    rw [Guarded.expected_bytes] at he
    split at he
    case isTrue => exact (h.streams k).expected e he
    case isFalse =>
      obtain rfl := Option.some.inj he
      cases hexpected : (s.streams k).guarded.expectedOffset with
      | none => exact hend
      | some expected =>
        have hle := (h.streams k).expected expected hexpected
        dsimp only
        omega
  unfold Seam.deliver
  dsimp only
  split
  case h_1 => exact h.modify ⟨(h.streams k).position, (h.streams k).acceptor, hguarded⟩
  case h_2 handover _ =>
    have hmoved := h.modify (k := k) (f := fun t =>
      { t with
        guarded := ((s.streams k).guarded.bytes name offset payload).1
        origin := t.origin.or (some offset) })
      ⟨(h.streams k).position, (h.streams k).acceptor, hguarded⟩
    exact { hmoved with }

theorem read (name : String) : (s.read name).Sound := by
  unfold Seam.read
  split
  case h_2 => exact h
  case h_1 frame rest _ hlink =>
    have houtputs : ∀ x ∈ HostPane.outputs rest, Placed s.produced x.1 x.2 := fun x hx =>
      h.outputs x (by
        rw [hlink, outputs_cons]
        exact List.mem_append_right _ hx)
    have hreplies : ∀ x ∈ HostPane.replies rest, Answers s.produced s.pumpEnded x.2 := fun x hx =>
      h.replies x (by
        rw [hlink, replies_cons]
        exact List.mem_append_right _ hx)
    have hrest : Sound { s with link := rest } := { h with outputs := houtputs, replies := hreplies }
    dsimp only
    split
    case h_1 k position =>
      refine hrest.modify ⟨fun p hp => ?_, fun p hp => ?_, (h.streams k).expected⟩
      · obtain rfl := Option.some.inj hp
        exact h.replies (k, position) (by simp [hlink, HostPane.replies])
      · exact congrArg some (Acceptor.replied.inj hp)
    case h_2 events k _ =>
      exact hrest.modify
        ⟨(h.streams k).position, (h.streams k).acceptor, (h.streams k).expected⟩
    case h_3 events k _ =>
      exact hrest.modify
        ⟨(h.streams k).position, (h.streams k).acceptor, (h.streams k).expected⟩
    case h_4 offset payload k _ =>
      exact hrest.deliver name k (h.outputs (offset, payload) (by simp [hlink, HostPane.outputs]))
    case h_5 k _ => exact { hrest with }
    case h_6 => exact hrest

theorem hand : s.hand.Sound := by
  unfold Seam.hand
  split
  case h_2 => exact h
  case h_1 k handover _ =>
    have hhanded := h.modify (k := k) (f := fun t => { t with calls := t.calls ++ handover.calls })
      ⟨(h.streams k).position, (h.streams k).acceptor, (h.streams k).expected⟩
    exact { hhanded with }

theorem readerFinish : s.readerFinish.Sound := by
  unfold Seam.readerFinish
  split
  case h_2 => exact h
  case h_1 k _ =>
    have hlatched := h.modify (k := k)
      (f := fun t => { t with guarded := (s.streams k).guarded.finish.2 })
      ⟨(h.streams k).position, (h.streams k).acceptor, (h.streams k).expected⟩
    exact { hlatched with }

theorem readerEnd : s.readerEnd.Sound := by
  unfold Seam.readerEnd
  split
  case h_2 => exact h
  case h_1 k _ =>
    have htold := h.modify (k := k) (f := fun t => { t with calls := t.calls ++ [.ended] })
      ⟨(h.streams k).position, (h.streams k).acceptor, (h.streams k).expected⟩
    exact { htold with }

theorem accept (name : String) (k : Nat) : (s.accept name k).Sound := by
  unfold Seam.accept
  split
  case h_2 => exact h
  case h_1 position hreplied =>
    have hposition := (h.streams k).acceptor position hreplied
    have hanswer := (h.streams k).position position hposition
    refine h.modify ⟨(h.streams k).position, fun p hp => ?_, fun e he => ?_⟩
    · dsimp only at hp
      split at hp <;> contradiction
    · obtain rfl := Option.some.inj he
      have hstart := hanswer.start_le
      have hhead := hanswer.head_le
      cases hexpected : (s.streams k).guarded.expectedOffset with
      | none => simpa using Nat.le_trans hstart hhead
      | some expected => exact (h.streams k).expected expected hexpected

theorem acceptFinish (k : Nat) : (s.acceptFinish k).Sound := by
  unfold Seam.acceptFinish
  split
  case h_2 => exact h
  case h_1 =>
    refine h.modify ⟨(h.streams k).position, fun p hp => ?_, (h.streams k).expected⟩
    split at hp <;> contradiction

theorem acceptEnd (k : Nat) : (s.acceptEnd k).Sound := by
  unfold Seam.acceptEnd
  split
  case h_2 => exact h
  case h_1 =>
    exact h.modify ⟨(h.streams k).position, fun _ hp => by contradiction, (h.streams k).expected⟩

theorem step (limit : Nat) (name : String) (op : SeamOp σ β) : (s.step limit name op).Sound := by
  cases op with
  | append chunk sniffed blocks => exact h.append chunk sniffed blocks
  | fanOut => exact h.fanOut
  | finishPump => exact h.finishPump
  | notify => exact h.notify
  | serve => exact h.serve
  | readEnded => exact h.readEnded
  | ship sniffed => exact h.ship limit sniffed
  | start fromOffset => exact h.start fromOffset
  | stop k => exact h.stop k
  | read => exact h.read name
  | hand => exact h.hand
  | readerFinish => exact h.readerFinish
  | readerEnd => exact h.readerEnd
  | accept k => exact h.accept name k
  | acceptFinish k => exact h.acceptFinish k
  | acceptEnd k => exact h.acceptEnd k

end

end Sound

/-- A position that says the pane has ended names the end of its output, in
every state a run goes on to. -/
theorem sound_run (capacity limit : Nat) (name : String) (ops : List (SeamOp σ β)) :
    (run (step limit name) (new capacity) ops).Sound :=
  run_invariant Sound (fun _ op h => h.step limit name op) (sound_new capacity) ops

end Seam

/-! ## §3 Each request is answered once -/

/-- The streams that requests in the queue subscribe. -/
def requested (requests : List Request) : List Nat :=
  requests.filterMap fun request =>
    match request with
    | .subscribe stream _ => some stream
    | .unsubscribe => none

@[simp] theorem requested_append (a b : List Request) : requested (a ++ b) = requested a ++ requested b :=
  List.filterMap_append

/-- The stream whose request holds the wire lock. -/
def Wire.holder : Wire → List Nat
  | .free => []
  | .resumed stream _ _ | .answered stream _ _ _ => [stream]

/-- The stream the reader is busy with. -/
def Reader.stream : Reader σ β → Option Nat
  | .idle => none
  | .handing stream _ | .finishing stream | .ending stream => some stream

/-- The calls the reader still has to make. -/
def Reader.calls : Reader σ β → List (SinkCall σ β)
  | .handing _ handover => handover.calls
  | _ => []

/-- The reader, as far as the stream `k` sees it. -/
def Reader.on (r : Reader σ β) (k : Nat) : Reader σ β := if r.stream = some k then r else .idle

/-- A reader that has nothing to do with any other stream. -/
def Reader.At (r : Reader σ β) (k : Nat) : Prop := r = .idle ∨ r.stream = some k

variable {r : Reader σ β}

theorem Reader.At.on_self (h : r.At k) : r.on k = r := by
  rcases h with rfl | hbusy
  · rfl
  · exact if_pos hbusy

theorem Reader.At.on_other {i : Nat} (h : r.At k) (hne : i ≠ k) : r.on i = .idle := by
  rcases h with rfl | hbusy
  · rfl
  · refine if_neg fun hsame => hne ?_
    rw [hbusy] at hsame
    exact (Option.some.inj hsame).symm

theorem Reader.at_ite {p : Prop} [Decidable p] {a b : Reader σ β} (ha : a.At k)
    (hb : b.At k) : (if p then a else b).At k := by
  split
  case isTrue => exact ha
  case isFalse => exact hb

namespace Seam

/-- The streams still to be answered, in the order they asked. -/
def pending (s : Seam σ β) : List Nat :=
  (replies s.link).map (·.1) ++ s.wire.holder ++ requested s.requests

/-- A stream is asked for once, and until it is answered its own thread
waits. -/
structure Orderly (s : Seam σ β) : Prop where
  nodup : s.pending.Nodup
  asked : ∀ k ∈ s.pending, k < s.started ∧ (s.streams k).acceptor = .waiting ∧
    (s.streams k).position = none
  sink : ∀ k, s.sink = some k → k < s.started
  reader : ∀ k, s.reader.stream = some k → k < s.started

theorem orderly_new (capacity : Nat) : (new capacity : Seam σ β).Orderly where
  nodup := List.nodup_nil
  asked _ h := absurd h List.not_mem_nil
  sink _ h := by contradiction
  reader _ h := by contradiction

namespace Orderly

variable {s : Seam σ β}
variable {k : Nat}

/-- What does not touch the host keeps it in order as long as the same
streams wait for an answer. -/
theorem requeue (h : s.Orderly) {s' : Seam σ β} (hpending : s'.pending = s.pending)
    (hstarted : s'.started = s.started) (hstreams : s'.streams = s.streams)
    (hsink : s'.sink = s.sink) (hreader : s'.reader = s.reader) : s'.Orderly where
  nodup := hpending ▸ h.nodup
  asked := by
    rw [hpending, hstarted, hstreams]
    exact h.asked
  sink := by
    rw [hsink, hstarted]
    exact h.sink
  reader := by
    rw [hreader, hstarted]
    exact h.reader

variable {f : Stream σ β → Stream σ β}

section

variable (h : s.Orderly)
include h

theorem modify (hf : k ∈ s.pending → (f (s.streams k)).acceptor = .waiting ∧
      (f (s.streams k)).position = none) : (s.modify k f).Orderly where
  nodup := h.nodup
  asked i hi := by
    refine ⟨(h.asked i hi).1, ?_⟩
    simp only [Seam.modify]
    split
    case isTrue hsame =>
      obtain rfl := hsame
      exact hf hi
    case isFalse => exact (h.asked i hi).2
  sink := h.sink
  reader := h.reader

theorem steady (hacceptor : (f (s.streams k)).acceptor = (s.streams k).acceptor)
    (hposition : (f (s.streams k)).position = (s.streams k).position) : (s.modify k f).Orderly :=
  h.modify fun hk => ⟨hacceptor.trans (h.asked k hk).2.1, hposition.trans (h.asked k hk).2.2⟩

theorem turn {reader : Reader σ β}
    (hreader : ∀ k, reader.stream = some k → k < s.started) : Orderly { s with reader } :=
  { h with reader := hreader }

theorem append (chunk : List UInt8) (sniffed : List σ) (blocks : List β) :
    (s.append chunk sniffed blocks).Orderly := by
  unfold Seam.append
  split
  case isTrue => exact h
  case isFalse => exact { h with }

theorem fanOut : s.fanOut.Orderly := by
  unfold Seam.fanOut
  split
  case h_2 => exact h
  case h_1 w _ _ =>
    split
    case isFalse => exact { h with }
    case isTrue =>
      have hpending : (replies (s.link ++ outputFrames w)).map (·.1) ++ s.wire.holder
          ++ requested s.requests = s.pending := by
        rw [replies_append, replies_outputFrames, List.append_nil]
        rfl
      exact h.requeue hpending rfl rfl rfl rfl

theorem finishPump : s.finishPump.Orderly := by
  unfold Seam.finishPump
  split
  case isTrue => exact h
  case isFalse => exact { h with }

theorem notify : s.notify.Orderly := by
  unfold Seam.notify
  split
  case h_2 => exact h
  case h_1 hfree =>
    split
    case isFalse => exact h
    case isTrue =>
      have hpending : (replies (s.link ++ [.exited])).map (·.1) ++ s.wire.holder
          ++ requested s.requests = s.pending := by
        simp [replies, pending]
      exact h.requeue hpending rfl rfl rfl rfl

theorem serve : s.serve.Orderly := by
  unfold Seam.serve
  split
  case h_3 => exact h
  case h_1 rest hfree hrequests =>
    have hpending : (replies s.link).map (·.1) ++ s.wire.holder ++ requested rest = s.pending := by
      simp [pending, hrequests, requested]
    exact h.requeue hpending rfl rfl rfl rfl
  case h_2 k requestedFrom rest hfree hrequests =>
    have hpending : (replies s.link).map (·.1) ++ [k] ++ requested rest = s.pending := by
      simp [pending, hfree, hrequests, requested, Wire.holder]
    exact h.requeue hpending rfl rfl rfl rfl

theorem readEnded : s.readEnded.Orderly := by
  unfold Seam.readEnded
  split
  case h_2 => exact h
  case h_1 k requestedFrom r hheld =>
    have hpending : (replies s.link).map (·.1) ++ [k] ++ requested s.requests = s.pending := by
      rw [pending, hheld]
      rfl
    exact h.requeue hpending rfl rfl rfl rfl

end

@[simp] theorem replies_writeBacklog (limit : Nat) (r : Resume) (sniffed : List σ) :
    replies (writeBacklog limit r sniffed : List (Frame σ β)) = [] := by
  simp [writeBacklog]

section

variable (h : s.Orderly)
include h

theorem ship (limit : Nat) (sniffed : List σ) : (s.ship limit sniffed).Orderly := by
  unfold Seam.ship
  split
  case h_2 => exact h
  case h_1 k requestedFrom r ended hheld =>
    have hpending : (replies (s.link ++ (.reply k ⟨r.start, r.head, r.isLossy requestedFrom, ended⟩
        :: writeBacklog limit r sniffed))).map (·.1) ++ [] ++ requested s.requests = s.pending := by
      rw [replies_append, replies_cons, replies_writeBacklog, pending, hheld]
      simp [replies, Wire.holder]
    exact h.requeue hpending rfl rfl rfl rfl

theorem start (fromOffset : Nat) : (s.start fromOffset).Orderly := by
  have hpending : (s.start fromOffset).pending = s.pending ++ [s.started] := by
    simp [Seam.start, Guarded.start, pending, Seam.modify, requested]
  have hfresh : s.started ∉ s.pending := fun hmem => Nat.lt_irrefl _ (h.asked _ hmem).1
  exact {
    nodup := by
      rw [hpending]
      exact List.nodup_append.mpr ⟨h.nodup, by simp, fun a ha b hb => by
        grind⟩
    asked := by
      intro k hk
      rw [hpending] at hk
      simp only [Seam.start, Guarded.start, Seam.modify]
      rcases List.mem_append.mp hk with hold | hnew
      · obtain ⟨hlt, hwaiting⟩ := h.asked k hold
        refine ⟨Nat.lt_succ_of_lt hlt, ?_⟩
        simpa [Nat.ne_of_lt hlt] using hwaiting
      · obtain rfl := List.mem_singleton.mp hnew
        simp
    sink := by
      intro k hk
      obtain rfl := Option.some.inj hk
      exact Nat.lt_succ_self _
    reader := fun k hk => Nat.lt_succ_of_lt (h.reader k hk) }

theorem stop (k : Nat) : (s.stop k).Orderly := by
  have hstopped := h.steady (k := k)
    (f := fun t => { t with guarded := { (s.streams k).guarded with stopped := true } }) rfl rfl
  unfold Seam.stop
  dsimp only [Guarded.stop]
  split
  case isFalse => exact hstopped
  case isTrue =>
    have hpending : (replies s.link).map (·.1) ++ s.wire.holder
        ++ requested (s.requests ++ [.unsubscribe]) = s.pending := by
      rw [requested_append]
      exact congrArg (_ ++ ·) (List.append_nil _)
    have hqueued : Orderly { s.modify k (fun t =>
        { t with guarded := { (s.streams k).guarded with stopped := true } }) with
          requests := s.requests ++ [.unsubscribe] } :=
      hstopped.requeue hpending rfl rfl rfl rfl
    exact { hqueued with sink := fun _ h => by contradiction }

theorem deliver (name : String) (hk : s.sink = some k) (offset : Nat)
    (payload : List UInt8) : (s.deliver name k offset payload).Orderly := by
  unfold Seam.deliver
  dsimp only
  split
  case h_1 => exact h.steady rfl rfl
  case h_2 handover _ =>
    have hmoved := h.steady (k := k) (f := fun t =>
      { t with
        guarded := ((s.streams k).guarded.bytes name offset payload).1
        origin := t.origin.or (some offset) }) rfl rfl
    refine hmoved.turn fun i hi => ?_
    obtain rfl := Option.some.inj hi
    exact h.sink _ hk

theorem read (name : String) : (s.read name).Orderly := by
  unfold Seam.read
  split
  case h_2 => exact h
  case h_1 frame rest hidle hlink =>
    have hrest (hframe : replies [frame] = []) : Orderly { s with link := rest } := by
      have hpending : (replies rest).map (·.1) ++ s.wire.holder ++ requested s.requests
          = s.pending := by
        rw [pending, hlink, replies_cons, hframe, List.nil_append]
      exact h.requeue hpending rfl rfl rfl rfl
    dsimp only
    split
    case h_1 k position =>
      have hpending : s.pending
          = k :: ((replies rest).map (·.1) ++ s.wire.holder ++ requested s.requests) := by
        rw [pending, hlink]
        rfl
      have hnodup := List.nodup_cons.mp (hpending ▸ h.nodup)
      have hpopped : Orderly { s with link := rest } :=
        ⟨hnodup.2, fun i hi => h.asked i (hpending ▸ List.mem_cons_of_mem _ hi), h.sink, h.reader⟩
      exact hpopped.modify fun hk => absurd hk hnodup.1
    case h_2 events k _ => exact (hrest rfl).steady rfl rfl
    case h_3 events k _ => exact (hrest rfl).steady rfl rfl
    case h_4 offset payload k hsink => exact (hrest rfl).deliver name hsink offset payload
    case h_5 k hsink =>
      refine { hrest rfl with sink := fun _ h => by contradiction, reader := fun i hi => ?_ }
      obtain rfl := Option.some.inj hi
      exact h.sink _ hsink
    case h_6 other _ _ hnoReply _ =>
      apply hrest
      cases other with
      | reply k position => exact absurd rfl (hnoReply k position)
      | _ => rfl

theorem hand : s.hand.Orderly := by
  unfold Seam.hand
  split
  case h_2 => exact h
  case h_1 k handover hreader =>
    have hlt : k < s.started := h.reader k (by rw [hreader]; rfl)
    have hhanded := h.steady (k := k) (f := fun t => { t with calls := t.calls ++ handover.calls })
      rfl rfl
    refine hhanded.turn fun i hi => ?_
    split at hi
    case isTrue =>
      obtain rfl := Option.some.inj hi
      exact hlt
    case isFalse => contradiction

theorem readerFinish : s.readerFinish.Orderly := by
  unfold Seam.readerFinish
  split
  case h_2 => exact h
  case h_1 k hreader =>
    have hlt : k < s.started := h.reader k (by rw [hreader]; rfl)
    have hlatched := h.steady (k := k)
      (f := fun t => { t with guarded := (s.streams k).guarded.finish.2 }) rfl rfl
    refine hlatched.turn fun i hi => ?_
    split at hi
    case isTrue =>
      obtain rfl := Option.some.inj hi
      exact hlt
    case isFalse => contradiction

theorem readerEnd : s.readerEnd.Orderly := by
  unfold Seam.readerEnd
  split
  case h_2 => exact h
  case h_1 k _ =>
    have htold := h.steady (k := k) (f := fun t => { t with calls := t.calls ++ [.ended] }) rfl rfl
    exact htold.turn fun _ h => by contradiction

theorem awake (hk : (s.streams k).acceptor ≠ .waiting)
    (f : Stream σ β → Stream σ β) : (s.modify k f).Orderly :=
  h.modify fun hmem => absurd (h.asked k hmem).2.1 hk

theorem accept (name : String) (k : Nat) : (s.accept name k).Orderly := by
  unfold Seam.accept
  split
  case h_2 => exact h
  case h_1 hreplied => exact h.awake (by simp [hreplied]) _

theorem acceptFinish (k : Nat) : (s.acceptFinish k).Orderly := by
  unfold Seam.acceptFinish
  split
  case h_2 => exact h
  case h_1 hfinishing => exact h.awake (by simp [hfinishing]) _

theorem acceptEnd (k : Nat) : (s.acceptEnd k).Orderly := by
  unfold Seam.acceptEnd
  split
  case h_2 => exact h
  case h_1 hending => exact h.awake (by simp [hending]) _

theorem step (limit : Nat) (name : String) (op : SeamOp σ β) : (s.step limit name op).Orderly := by
  cases op with
  | append chunk sniffed blocks => exact h.append chunk sniffed blocks
  | fanOut => exact h.fanOut
  | finishPump => exact h.finishPump
  | notify => exact h.notify
  | serve => exact h.serve
  | readEnded => exact h.readEnded
  | ship sniffed => exact h.ship limit sniffed
  | start fromOffset => exact h.start fromOffset
  | stop k => exact h.stop k
  | read => exact h.read name
  | hand => exact h.hand
  | readerFinish => exact h.readerFinish
  | readerEnd => exact h.readerEnd
  | accept k => exact h.accept name k
  | acceptFinish k => exact h.acceptFinish k
  | acceptEnd k => exact h.acceptEnd k

end

end Orderly

end Seam

end SlopDesk.HostPane
