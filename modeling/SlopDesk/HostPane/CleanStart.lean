/-
SlopDesk.HostPane.CleanStart — each stream is handed the pane's bytes from
its own start on.

What can go wrong is what reaches a sink before the answer to its own
request does: the frames of an earlier subscription, or the pane's
`exited`. A stream that takes them for its own counts from where they
begin, and cuts that much off its backlog. `InStep` is the condition that
they do not, op by op. §1 is what one stream has been handed, §2 how far
the newest stream's subscription has come, and §3 puts them together over
a run.
-/
import SlopDesk.HostPane.SubscriptionTheorems

namespace SlopDesk.HostPane

open SlopDesk.Base
open SlopDesk.Superd

variable {σ β : Type}

/-! ## §1 What a stream has been handed -/

/-- The bytes a stream has been handed, those the reader still has in hand
included. -/
def gotten (t : Stream σ β) (r : Reader σ β) : List UInt8 := payloads t.calls ++ payloads r.calls

/-- A stream that accounts for no byte yet has been handed none; otherwise it
holds the pane's output from its origin to where it expects more. -/
inductive Accounts (produced : List UInt8) (t : Stream σ β) (r : Reader σ β) : Prop
  | fresh (origin : t.origin = none) (expected : t.guarded.expectedOffset = none)
      (got : gotten t r = [])
  | since (start : Nat) (origin : t.origin = some start)
      (expected : t.guarded.expectedOffset = some (start + (gotten t r).length))
      (placed : Placed produced start (gotten t r))

/-- And the origin of a stream that was answered is its start. -/
structure Got (produced : List UInt8) (t : Stream σ β) (r : Reader σ β) : Prop where
  accounts : Accounts produced t r
  origin : ∀ position start, t.position = some position → t.origin = some start →
    start = position.start

namespace Got

variable {produced : List UInt8} {t : Stream σ β} {r : Reader σ β}
variable {position : StreamPosition}

theorem new : Got produced ({ guarded := { started := true } } : Stream σ β) .idle where
  accounts := .fresh rfl rfl rfl
  origin _ _ h := by contradiction

theorem grow (h : Got produced t r) (more : List UInt8) : Got (produced ++ more) t r where
  accounts := by
    cases h.accounts with
    | fresh origin expected got => exact .fresh origin expected got
    | since start origin expected placed => exact .since start origin expected (placed.grow more)
  origin := h.origin

theorem aside (h : Got produced t r) {t' : Stream σ β} {r' : Reader σ β}
    (hgot : gotten t' r' = gotten t r) (horigin : t'.origin = t.origin)
    (hexpected : t'.guarded.expectedOffset = t.guarded.expectedOffset)
    (hposition : t'.position = t.position) : Got produced t' r' where
  accounts := by
    cases h.accounts with
    | fresh origin expected got =>
      exact .fresh (horigin.trans origin) (hexpected.trans expected) (hgot.trans got)
    | since start origin expected placed =>
      refine .since start (horigin.trans origin) ?_ ?_
      · rw [hexpected, hgot]
        exact expected
      · rw [hgot]
        exact placed
  origin := by
    rw [hposition, horigin]
    exact h.origin

theorem bytes (h : Got produced t .idle) (hlive : t.guarded.stopped = false) {name : String}
    {offset : Nat} {payload : List UInt8} (hplaced : Placed produced offset payload)
    (hnear : ∀ e, t.guarded.expectedOffset = some e → offset ≤ e)
    (hstart : ∀ position, t.position = some position → t.guarded.expectedOffset = none →
      offset = position.start)
    {handover : Handover σ β} (hhandover : (t.guarded.bytes name offset payload).2 = some handover)
    (k : Nat) : Got produced
      { t with
        guarded := (t.guarded.bytes name offset payload).1
        origin := t.origin.or (some offset) } (.handing k handover) := by
  obtain ⟨_, hsame, hpayloads, _⟩ := @Guarded.bytes_live _ _ name _ hlive offset payload
  obtain rfl := Option.some.inj (hhandover.symm.trans hsame)
  have hexpected := @Guarded.expected_bytes _ _ name t.guarded offset payload
  rw [hlive] at hexpected
  have hgot : payloads t.calls ++ payloads handover.calls
      = gotten t .idle ++ payload.drop (t.guarded.overlap offset) := by
    rw [hpayloads, gotten]
    exact congrArg (· ++ _) (List.append_nil _).symm
  cases h.accounts with
  | fresh origin expected got =>
    rw [expected] at hexpected
    have hall : payloads t.calls ++ payloads handover.calls = payload := by
      rw [hgot, got, Guarded.overlap, expected]
      rfl
    exact {
      accounts := by
        refine .since offset (by rw [origin]; rfl) ?_ ?_
        · rw [hexpected]
          exact congrArg (fun got => some (offset + got.length)) hall.symm
        · rw [gotten, Reader.calls, hall]
          exact hplaced
      origin := by
        grind }
  | since start origin expected placed =>
    rw [expected] at hexpected
    have hle := hnear _ expected
    obtain ⟨hmore, hend⟩ := placed.extend hplaced hle
    have hall : payloads t.calls ++ payloads handover.calls
        = gotten t .idle ++ payload.drop (start + (gotten t .idle).length - offset) := by
      rw [hgot, Guarded.overlap, expected]
    exact {
      accounts := by
        refine .since start (by rw [origin]; rfl) ?_ ?_
        · have hlength : max (start + (gotten t .idle).length) (offset + payload.length)
              = start + (payloads t.calls ++ payloads handover.calls).length := by rw [hall, hend]
          rw [hexpected]
          exact congrArg some hlength
        · rw [gotten, Reader.calls, hall]
          exact hmore
      origin := by
        grind [origin] }

/-- The stream's own thread takes its answer's start for the origin if
nothing came before. -/
theorem accept (h : Got produced t r) (hposition : t.position = some position)
    (hle : position.start ≤ produced.length) {guarded : Guarded σ β}
    (hexpected : guarded.expectedOffset = some (t.guarded.expectedOffset.getD position.start))
    {lines : List (SinkCall σ β)} (hlines : payloads lines = []) (acceptor : Acceptor) : Got produced
      { t with
        guarded
        origin := t.origin.or (some position.start)
        calls := t.calls ++ lines
        acceptor } r := by
  have hgot : payloads (t.calls ++ lines) ++ payloads r.calls = gotten t r := by
    rw [payloads_append, hlines, List.append_nil]
    rfl
  cases h.accounts with
  | fresh origin expected got =>
    rw [expected] at hexpected
    exact {
      accounts := by
        refine .since position.start (by rw [origin]; rfl) ?_ ?_
        · rw [gotten, hgot, got]
          exact hexpected
        · rw [gotten, hgot, got]
          exact .nil hle
      origin := by
        grind }
  | since start origin expected placed =>
    rw [expected] at hexpected
    exact {
      accounts := by
        refine .since start (by rw [origin]; rfl) ?_ ?_
        · rw [gotten, hgot]
          exact hexpected
        · rw [gotten, hgot]
          exact placed
      origin := by
        grind [origin] }

/-- What a stream that was answered has been handed is the output from its
start, as far as it got. -/
theorem placed (h : Got produced t r) (hposition : t.position = some position)
    (hle : position.start ≤ produced.length) : Placed produced position.start (gotten t r) ∧
    t.guarded.expectedOffset.getD position.start = position.start + (gotten t r).length := by
  cases h.accounts with
  | fresh origin expected got =>
    rw [expected, got]
    exact ⟨.nil hle, rfl⟩
  | since start origin expected placed =>
    obtain rfl := h.origin position start hposition origin
    rw [expected]
    exact ⟨placed, rfl⟩

end Got

/-! ## §2 How far the newest subscription has come -/

/-- The request that holds the wire lock, with its snapshot. -/
def Wire.serves : Wire → Option (Nat × Resume)
  | .free => none
  | .resumed stream _ r | .answered stream _ r _ => some (stream, r)

theorem Wire.holder_eq {wire : Wire} {k : Nat} {r : Resume} (h : wire.serves = some (k, r)) :
    wire.holder = [k] := by
  cases wire with
  | free => contradiction
  | resumed stream asked resume => exact congrArg (fun x => [x.1]) (Option.some.inj h)
  | answered stream asked resume ended => exact congrArg (fun x => [x.1]) (Option.some.inj h)

/-- No output comes after an `exited`. -/
def ExitLast (frames : List (Frame σ β)) : Prop :=
  ∀ before after, frames = before ++ .exited :: after → outputs after = []

namespace ExitLast

variable {frames rest : List (Frame σ β)} {frame : Frame σ β}

theorem of_not_mem (h : .exited ∉ frames) : ExitLast frames := fun _ _ heq =>
  absurd (heq ▸ List.mem_append_right _ (List.mem_cons_self ..)) h

theorem tail (h : ExitLast (frame :: rest)) : ExitLast rest := fun before after heq =>
  h (frame :: before) after (congrArg (frame :: ·) heq)

theorem close (h : .exited ∉ frames) : ExitLast (frames ++ [.exited]) := by
  intro before after heq
  rcases List.append_eq_append_iff.mp heq with ⟨gap, _, hlast⟩ | ⟨gap, hframes, hafter⟩
  · cases gap with
    | nil =>
      obtain rfl := (List.cons.inj hlast).2
      rfl
    | cons first gap => exact absurd (congrArg List.length hlast) (by simp)
  · cases gap with
    | nil =>
      obtain rfl := (List.cons.inj hafter).2
      rfl
    | cons first gap =>
      grind

end ExitLast

theorem exited_not_mem_events (sniffed : List σ) (blocks : List β) :
    .exited ∉ (eventFrames sniffed blocks : List (Frame σ β)) := by
  unfold eventFrames
  split <;> split <;> simp

theorem exited_not_mem_output (w : Waiting σ β) : .exited ∉ outputFrames w := by
  simp [outputFrames, exited_not_mem_events]

theorem exited_not_mem_backlog (limit : Nat) (r : Resume) (sniffed : List σ) :
    .exited ∉ (writeBacklog limit r sniffed : List (Frame σ β)) := by
  have hpieces : ∀ (pieces : List (List UInt8)) (offset : Nat),
      .exited ∉ (backlogFrames offset pieces : List (Frame σ β)) := by
    intro pieces
    induction pieces with
    | nil => exact fun _ => List.not_mem_nil
    | cons piece rest ih => simp [backlogFrames, ih]
  simp [writeBacklog, exited_not_mem_events, hpieces]

namespace Seam

variable {k : Nat} {s : Seam σ β}

/-- The request of the stream is still in the queue. -/
structure Queued (s : Seam σ β) (k : Nat) : Prop where
  sink : s.sink = some k
  requests : ∃ before fromOffset, s.requests = before ++ [.subscribe k fromOffset]

/-- It holds the wire lock: what is on the link ends no later than its
snapshot. -/
structure Serving (s : Seam σ β) (k : Nat) (r : Resume) : Prop where
  sink : s.sink = some k
  requests : s.requests = []
  wire : s.wire.serves = some (k, r)
  link : ∀ x ∈ outputs s.link, x.1 + x.2.length ≤ r.head
  expected : ∀ e, (s.streams k).guarded.expectedOffset = some e → e ≤ r.head

/-- It was shipped, and what the pane produces follows on. -/
structure Followed (s : Seam σ β) : Prop where
  requests : s.requests = []
  wire : s.wire = .free
  registered : s.registered = true
  mark : s.mark = s.produced.length ∨ ∃ w, s.waiting = some w ∧ w.offset = s.mark

/-- The answer is on the link, behind frames of earlier subscriptions. -/
structure Replied (s : Seam σ β) (k : Nat) (before : List (Frame σ β)) (answer : StreamPosition)
    (after : List (Frame σ β)) : Prop where
  followed : s.Followed
  sink : s.sink = some k
  link : s.link = before ++ .reply k answer :: after
  stale : ∀ x ∈ outputs before, x.1 + x.2.length ≤ answer.head
  expected : ∀ e, (s.streams k).guarded.expectedOffset = some e → e ≤ answer.head
  head_le : answer.head ≤ s.mark
  flows : Flows s.produced answer.start (outputs after) s.mark
  last : ExitLast after

/-- The answer was read: what is on the link carries the stream on. -/
structure Live (s : Seam σ β) (k : Nat) (answer : StreamPosition) : Prop where
  followed : s.Followed
  sink : s.sink = some k
  position : (s.streams k).position = some answer
  flows : Flows s.produced ((s.streams k).guarded.expectedOffset.getD answer.start)
    (outputs s.link) s.mark
  last : ExitLast s.link

/-- The pane exited and the stream has everything. -/
structure Closed (s : Seam σ β) (k : Nat) (answer : StreamPosition) : Prop where
  sink : s.sink = none
  position : (s.streams k).position = some answer
  ended : s.pumpEnded = true
  reached : (s.streams k).guarded.expectedOffset.getD answer.start = s.produced.length

/-- How far the subscription of the newest stream has come. -/
inductive Stage (s : Seam σ β) (k : Nat) : Prop
  | queued (h : s.Queued k)
  | serving (r : Resume) (h : s.Serving k r)
  | replied (before : List (Frame σ β)) (answer : StreamPosition) (after : List (Frame σ β))
      (h : s.Replied k before answer after)
  | live (answer : StreamPosition) (h : s.Live k answer)
  | closed (answer : StreamPosition) (h : s.Closed k answer)

/-- `exited` goes out once, after the pump. -/
structure Exits (s : Seam σ β) : Prop where
  notified : s.notified = true → s.pumpEnded = true
  link : .exited ∈ s.link → s.notified = true

namespace Followed

variable {s : Seam σ β}

theorem offset_le (h : s.Followed) (hsound : s.Sound) {w : Waiting σ β} (hw : s.waiting = some w) :
    w.offset ≤ s.mark := by
  rcases h.mark with hmark | ⟨w', hw', hmark⟩
  · have hend := (hsound.waiting w hw).2
    omega
  · grind

theorem mark_le (h : s.Followed) (hsound : s.Sound) : s.mark ≤ s.produced.length := by
  rcases h.mark with hmark | ⟨w, hw, hmark⟩
  · exact Nat.le_of_eq hmark
  · have hend := (hsound.waiting w hw).2
    omega

theorem mark_eq (h : s.Followed) (hwaiting : s.waiting = none) : s.mark = s.produced.length := by
  rcases h.mark with hmark | ⟨w, hw, _⟩
  · exact hmark
  · rw [hwaiting] at hw
    contradiction

end Followed

theorem Queued.pending (h : s.Queued k) : k ∈ s.pending := by
  obtain ⟨before, fromOffset, hqueue⟩ := h.requests
  simp [Seam.pending, hqueue, requested]

theorem Serving.pending {r : Resume} (h : s.Serving k r) : k ∈ s.pending := by
  simp [Seam.pending, Wire.holder_eq h.wire]

theorem Replied.pending {before after : List (Frame σ β)}
    {answer : StreamPosition} (h : s.Replied k before answer after) : k ∈ s.pending := by
  simp [Seam.pending, h.link, replies]

namespace Stage

variable {s : Seam σ β} {k : Nat}
variable {f : Stream σ β → Stream σ β} {answer : StreamPosition} {rest : List (Frame σ β)}

section

variable (h : s.Stage k)
include h

theorem append (hsound : s.Sound) (chunk : List UInt8) (sniffed : List σ)
    (blocks : List β) : (s.append chunk sniffed blocks).Stage k := by
  unfold Seam.append
  split
  case isTrue => exact h
  case isFalse hidle =>
    obtain ⟨hwaiting, hrunning⟩ : s.waiting = none ∧ s.pumpEnded = false := by simpa using hidle
    have hfollowed (hf : s.Followed) : Followed { s with
        ring := s.ring.append chunk
        produced := s.produced ++ chunk
        waiting := some ⟨s.ring.head, chunk, sniffed, blocks⟩ } :=
      { hf with mark := .inr ⟨_, rfl, hsound.ring.head_eq.trans (hf.mark_eq hwaiting).symm⟩ }
    cases h with
    | queued h => exact .queued { h with }
    | serving r h => exact .serving r { h with }
    | replied before answer after h =>
      exact .replied before answer after
        { h with followed := hfollowed h.followed, flows := h.flows.grow chunk }
    | live answer h =>
      exact .live answer { h with followed := hfollowed h.followed, flows := h.flows.grow chunk }
    | closed answer h => exact absurd (h.ended.symm.trans hrunning) (by simp)

theorem fanOut (hsound : s.Sound) (hexits : s.Exits) : s.fanOut.Stage k := by
  unfold Seam.fanOut
  split
  case h_2 => exact h
  case h_1 w hw hfree =>
    have hend := hsound.waiting w hw
    have hquiet : .exited ∉ s.link := fun hmem => by
      have hnone := hsound.drained (hexits.notified (hexits.link hmem))
      rw [hw] at hnone
      contradiction
    -- the chunk starts where the frames before it reach, or sooner
    have hflows {a : Nat} {frames : List (Frame σ β)} (hf : s.Followed)
        (hflow : Flows s.produced a (outputs frames) s.mark) :
        Flows s.produced a (outputs (frames ++ outputFrames w))
          (max s.mark (w.offset + w.bytes.length)) := by
      rw [outputs_append, outputs_outputFrames]
      exact hflow.append ⟨hf.offset_le hsound hw, hend.1, rfl⟩
    split
    case isFalse hgone =>
      cases h with
      | queued h => exact .queued { h with }
      | serving r h => exact .serving r { h with }
      | replied before answer after h => exact absurd h.followed.registered hgone
      | live answer h => exact absurd h.followed.registered hgone
      | closed answer h => exact .closed answer { h with }
    case isTrue =>
      have hfollowed (hf : s.Followed) : Followed { s with
          waiting := none
          link := s.link ++ outputFrames w
          mark := max s.mark (w.offset + w.bytes.length) } := by
        have hle := hf.mark_le hsound
        exact { hf with mark := .inl (by dsimp only; omega) }
      cases h with
      | queued h => exact .queued { h with }
      | serving r h =>
        have hheld := h.wire
        rw [hfree] at hheld
        contradiction
      | replied before answer after h =>
        refine .replied before answer (after ++ outputFrames w)
          { h with
            followed := hfollowed h.followed
            link := by rw [h.link, List.append_assoc]; rfl
            head_le := Nat.le_trans h.head_le (Nat.le_max_left ..)
            flows := hflows h.followed h.flows
            last := .of_not_mem ?_ }
        intro hmem
        rcases List.mem_append.mp hmem with hold | hnew
        · exact hquiet (by rw [h.link]; simp [hold])
        · exact exited_not_mem_output w hnew
      | live answer h =>
        refine .live answer
          { h with
            followed := hfollowed h.followed
            flows := hflows h.followed h.flows
            last := .of_not_mem ?_ }
        intro hmem
        rcases List.mem_append.mp hmem with hold | hnew
        · exact hquiet hold
        · exact exited_not_mem_output w hnew
      | closed answer h => exact .closed answer { h with }

theorem finishPump : s.finishPump.Stage k := by
  unfold Seam.finishPump
  split
  case isTrue => exact h
  case isFalse =>
    cases h with
    | queued h => exact .queued { h with }
    | serving r h => exact .serving r { h with }
    | replied before answer after h =>
      exact .replied before answer after { h with followed := { h.followed with } }
    | live answer h => exact .live answer { h with followed := { h.followed with } }
    | closed answer h => exact .closed answer { h with ended := rfl }

theorem notify (hexits : s.Exits) : s.notify.Stage k := by
  unfold Seam.notify
  split
  case h_2 => exact h
  case h_1 hfree =>
    split
    case isFalse => exact h
    case isTrue hdue =>
      have hfirst : .exited ∉ s.link := fun hmem => by
        have hnotified := hexits.link hmem
        simp [hnotified] at hdue
      have houtputs (frames : List (Frame σ β)) :
          outputs (frames ++ [.exited]) = outputs frames := by
        rw [outputs_append]
        exact List.append_nil _
      cases h with
      | queued h => exact .queued { h with }
      | serving r h =>
        have hheld := h.wire
        rw [hfree] at hheld
        contradiction
      | replied before answer after h =>
        exact .replied before answer (after ++ [.exited])
          { h with
            followed := { h.followed with }
            link := by rw [h.link, List.append_assoc]; rfl
            flows := by rw [houtputs]; exact h.flows
            last := .close fun hmem => hfirst (by rw [h.link]; simp [hmem]) }
      | live answer h =>
        exact .live answer
          { h with
            followed := { h.followed with }
            flows := by rw [houtputs]; exact h.flows
            last := .close hfirst }
      | closed answer h => exact .closed answer { h with }

theorem serve (hsound : s.Sound) : s.serve.Stage k := by
  unfold Seam.serve
  split
  case h_3 => exact h
  case h_1 rest hfree hrequests =>
    cases h with
    | queued h =>
      obtain ⟨before, fromOffset, hqueue⟩ := h.requests
      refine .queued { h with requests := ?_ }
      rw [hrequests] at hqueue
      cases before with
      | nil => exact absurd (List.cons.inj hqueue).1 (by simp)
      | cons first before => exact ⟨before, fromOffset, (List.cons.inj hqueue).2⟩
    | serving r h => exact absurd (hrequests.symm.trans h.requests) (by simp)
    | replied before answer after h => exact absurd (hrequests.symm.trans h.followed.requests) (by simp)
    | live answer h => exact absurd (hrequests.symm.trans h.followed.requests) (by simp)
    | closed answer h => exact .closed answer { h with }
  case h_2 j asked rest hfree hrequests =>
    cases h with
    | queued h =>
      obtain ⟨before, fromOffset, hqueue⟩ := h.requests
      rw [hrequests] at hqueue
      cases before with
      | nil =>
        obtain ⟨hfirst, rfl⟩ := List.cons.inj hqueue
        obtain ⟨rfl, rfl⟩ := Request.subscribe.inj hfirst
        -- the snapshot reaches as far as anything sent or handed on
        have hhead : (s.ring.readFrom asked).head = s.produced.length := (hsound.ring.readFrom asked).1
        exact .serving (s.ring.readFrom asked)
          { sink := h.sink
            requests := rfl
            wire := rfl
            link := fun x hx => by
              rw [hhead]
              exact (hsound.outputs x hx).end_le
            expected := fun e he => by
              rw [hhead]
              exact (hsound.streams j).expected e he }
      | cons first before =>
        exact .queued { h with requests := ⟨before, fromOffset, (List.cons.inj hqueue).2⟩ }
    | serving r h => exact absurd (hrequests.symm.trans h.requests) (by simp)
    | replied before answer after h => exact absurd (hrequests.symm.trans h.followed.requests) (by simp)
    | live answer h => exact absurd (hrequests.symm.trans h.followed.requests) (by simp)
    | closed answer h => exact .closed answer { h with }

theorem readEnded : s.readEnded.Stage k := by
  unfold Seam.readEnded
  split
  case h_2 => exact h
  case h_1 j asked r hheld =>
    cases h with
    | queued h => exact .queued { h with }
    | serving r h =>
      have hserves := h.wire
      rw [hheld] at hserves
      exact .serving r { h with wire := hserves }
    | replied before answer after h => exact absurd (hheld.symm.trans h.followed.wire) (by simp)
    | live answer h => exact absurd (hheld.symm.trans h.followed.wire) (by simp)
    | closed answer h => exact .closed answer { h with }

theorem ship (hsound : s.Sound) (limit : Nat) (sniffed : List σ) : (s.ship limit sniffed).Stage k := by
  have hholds := hsound.wire
  unfold Seam.ship
  split
  case h_2 => exact h
  case h_1 j asked r ended hheld =>
    rw [hheld] at hholds
    obtain ⟨hsnapshot, _⟩ := hholds
    cases h with
    | queued h => exact .queued { h with }
    | serving r' h =>
      have hserves := h.wire
      rw [hheld] at hserves
      obtain ⟨rfl, rfl⟩ := Prod.mk.inj (Option.some.inj hserves)
      exact .replied s.link ⟨r.start, r.head, r.isLossy asked, ended⟩ (writeBacklog limit r sniffed) {
        followed := ⟨h.requests, rfl, rfl, hsnapshot.since.imp_right id⟩
        sink := h.sink
        link := rfl
        stale := h.link
        expected := h.expected
        head_le := Nat.le_refl _
        flows := Sound.flows_writeBacklog hsnapshot.placed hsnapshot.head limit sniffed
        last := .of_not_mem (exited_not_mem_backlog limit r sniffed) }
    | replied before answer after h => exact absurd (hheld.symm.trans h.followed.wire) (by simp)
    | live answer h => exact absurd (hheld.symm.trans h.followed.wire) (by simp)
    | closed answer h => exact .closed answer { h with }

/-- A change to one stream that leaves the newest one's place in the output
alone. -/
theorem modify {j : Nat} (hposition : j = k → (f (s.streams k)).position = (s.streams k).position)
    (hexpected : j = k → (f (s.streams k)).guarded.expectedOffset
      = (s.streams k).guarded.expectedOffset) : (s.modify j f).Stage k := by
  obtain ⟨hpos, hexp⟩ : ((s.modify j f).streams k).position = (s.streams k).position ∧
      ((s.modify j f).streams k).guarded.expectedOffset = (s.streams k).guarded.expectedOffset := by
    grind [modify_self, s.modify_other]
  cases h with
  | queued h => exact .queued { h with }
  | serving r h => exact .serving r { h with expected := by rw [hexp]; exact h.expected }
  | replied before answer after h =>
    exact .replied before answer after
      { h with followed := { h.followed with }, expected := by rw [hexp]; exact h.expected }
  | live answer h =>
    exact .live answer
      { h with
        followed := { h.followed with }
        position := hpos.trans h.position
        flows := by rw [hexp]; exact h.flows }
  | closed answer h =>
    exact .closed answer
      { h with position := hpos.trans h.position, reached := by rw [hexp]; exact h.reached }

theorem turn (reader : Reader σ β) : Stage { s with reader } k := by
  cases h with
  | queued h => exact .queued { h with }
  | serving r h => exact .serving r { h with }
  | replied before answer after h =>
    exact .replied before answer after { h with followed := { h.followed with } }
  | live answer h => exact .live answer { h with followed := { h.followed with } }
  | closed answer h => exact .closed answer { h with }

/-- The stream's own thread sets where it expects the first byte, if none
came. -/
theorem accept (hanswer : (s.streams k).position = some answer) (hasked : k ∉ s.pending)
    (hposition : (f (s.streams k)).position = (s.streams k).position)
    (hexpected : (f (s.streams k)).guarded.expectedOffset
      = some ((s.streams k).guarded.expectedOffset.getD answer.start)) : (s.modify k f).Stage k := by
  have hpos : ((s.modify k f).streams k).position = (s.streams k).position := by
    rw [modify_self]
    exact hposition
  have hexp (position : StreamPosition) (hsame : (s.streams k).position = some position) :
      ((s.modify k f).streams k).guarded.expectedOffset.getD position.start
        = (s.streams k).guarded.expectedOffset.getD position.start := by
    rw [hanswer] at hsame
    obtain rfl := Option.some.inj hsame
    rw [modify_self, hexpected]
    rfl
  cases h with
  | queued h => exact absurd h.pending hasked
  | serving r h => exact absurd h.pending hasked
  | replied before answer after h => exact absurd h.pending hasked
  | live position h =>
    exact .live position
      { h with
        followed := { h.followed with }
        position := hpos.trans h.position
        flows := by rw [hexp position h.position]; exact h.flows }
  | closed position h =>
    exact .closed position
      { h with
        position := hpos.trans h.position
        reached := by rw [hexp position h.position]; exact h.reached }

theorem pop {frame : Frame σ β} (hlink : s.link = frame :: rest) (hquiet : outputs [frame] = [])
    (hother : ∀ answer, frame ≠ .reply k answer) : Stage { s with link := rest } k := by
  have hrest : outputs rest = outputs s.link := by rw [hlink, outputs_cons, hquiet, List.nil_append]
  cases h with
  | queued h => exact .queued { h with }
  | serving r h =>
    exact .serving r { h with link := by rw [hrest]; exact h.link }
  | replied before answer after h =>
    have hsplit := h.link
    rw [hlink] at hsplit
    cases before with
    | nil => exact absurd (List.cons.inj hsplit).1 (hother answer)
    | cons first before =>
      exact .replied before answer after
        { h with
          followed := { h.followed with }
          link := (List.cons.inj hsplit).2
          stale := fun x hx => h.stale x (by
            grind [outputs_cons]) }
  | live answer h =>
    have hlast := h.last
    rw [hlink] at hlast
    exact .live answer
      { h with
        followed := { h.followed with }
        flows := by rw [hrest]; exact h.flows
        last := hlast.tail }
  | closed answer h => exact .closed answer { h with }

/-- The answer of the stream, which what it was handed before must agree
with. -/
theorem reply (horderly : s.Orderly) {r : Reader σ β}
    (hgot : Accounts s.produced (s.streams k) r) (hlink : s.link = .reply k answer :: rest)
    (horigin : ∀ start, (s.streams k).origin = some start → start = answer.start) :
    (Seam.modify { s with link := rest } k fun t =>
      { t with acceptor := .replied answer, position := some answer }).Stage k := by
  have hnodup := horderly.nodup
  rw [Seam.pending, hlink] at hnodup
  -- the stream is asked for once, so nothing else it waits for is pending
  have honce : k ∉ (replies rest).map (·.1) ++ s.wire.holder ++ requested s.requests :=
    (List.nodup_cons.mp hnodup).1
  cases h with
  | queued h =>
    obtain ⟨before, fromOffset, hqueue⟩ := h.requests
    exact absurd (by simp [hqueue, requested]) honce
  | serving r h => exact absurd (by simp [Wire.holder_eq h.wire]) honce
  | replied before answer' after h =>
    have hsplit := h.link
    rw [hlink] at hsplit
    cases before with
    | cons first before =>
      refine absurd ?_ honce
      rw [(List.cons.inj hsplit).2]
      simp [replies]
    | nil =>
      obtain ⟨hfirst, rfl⟩ := List.cons.inj hsplit
      obtain ⟨_, rfl⟩ := Frame.reply.inj hfirst
      refine .live answer
        { followed := { h.followed with }
          sink := h.sink
          position := by rw [modify_self]
          flows := ?_
          last := h.last }
      rw [modify_self]
      cases hgot with
      | fresh _ expected got =>
        rw [expected]
        exact h.flows
      | since start origin expected placed =>
        obtain rfl := horigin start origin
        have hle := h.expected _ expected
        rw [expected]
        exact h.flows.ahead (Nat.le_add_right ..) (Nat.le_trans hle h.head_le)
  | live answer' h =>
    have hnone := (horderly.asked k (by rw [Seam.pending, hlink]; simp [replies])).2.2
    rw [h.position] at hnone
    contradiction
  | closed answer' h =>
    have hnone := (horderly.asked k (by rw [Seam.pending, hlink]; simp [replies])).2.2
    rw [h.position] at hnone
    contradiction

theorem output (hsink : s.sink = some k) {offset : Nat} {payload : List UInt8}
    (hlink : s.link = .output offset payload :: rest)
    (hstart : ∀ answer, (s.streams k).position = some answer →
      (s.streams k).guarded.expectedOffset = none → offset = answer.start)
    (hposition : (f (s.streams k)).position = (s.streams k).position)
    (hexpected : (f (s.streams k)).guarded.expectedOffset
      = some (match (s.streams k).guarded.expectedOffset with
        | none => offset + payload.length
        | some expected => max expected (offset + payload.length))) :
    (Seam.modify { s with link := rest } k f).Stage k := by
  have hstreams : (Seam.modify { s with link := rest } k f).streams k = f (s.streams k) := modify_self ..
  have hbound {head : Nat} (hframe : offset + payload.length ≤ head)
      (hbefore : ∀ e, (s.streams k).guarded.expectedOffset = some e → e ≤ head) (e : Nat)
      (he : ((Seam.modify { s with link := rest } k f).streams k).guarded.expectedOffset = some e) :
      e ≤ head := by
    grind
  cases h with
  | queued h => exact .queued { h with }
  | serving r h =>
    have hends := h.link
    rw [hlink] at hends
    exact .serving r
      { h with
        link := fun x hx => hends x (List.mem_cons_of_mem _ hx)
        expected := hbound (hends (offset, payload) (List.mem_cons_self ..)) h.expected }
  | replied before answer after h =>
    have hsplit := h.link
    rw [hlink] at hsplit
    cases before with
    | nil => exact absurd (List.cons.inj hsplit).1 (by simp)
    | cons first before =>
      obtain ⟨rfl, hrest⟩ := List.cons.inj hsplit
      exact .replied before answer after
        { h with
          followed := { h.followed with }
          link := hrest
          stale := fun x hx => h.stale x (List.mem_cons_of_mem _ hx)
          expected := hbound (h.stale (offset, payload) (List.mem_cons_self ..)) h.expected }
  | live answer h =>
    have hflows := h.flows
    have hlast := h.last
    rw [hlink] at hflows hlast
    have hmoved : (f (s.streams k)).guarded.expectedOffset.getD answer.start
        = max ((s.streams k).guarded.expectedOffset.getD answer.start) (offset + payload.length) := by
      rw [hexpected]
      cases hwas : (s.streams k).guarded.expectedOffset with
      | none =>
        have hsame := hstart answer h.position hwas
        simp only [Option.getD_some, Option.getD_none]
        omega
      | some expected => rfl
    exact .live answer
      { h with
        followed := { h.followed with }
        position := by rw [hstreams]; exact hposition.trans h.position
        flows := by
          rw [hstreams, hmoved]
          exact hflows.2.2
        last := hlast.tail }
  | closed answer h => exact absurd (hsink.symm.trans h.sink) (by simp)

theorem of_answer (horderly : s.Orderly) (hsink : s.sink = some k)
    (hanswer : (s.streams k).position = some answer) : s.Live k answer := by
  have hanswered : k ∉ s.pending := fun hmem => by
    have hnone := (horderly.asked k hmem).2.2
    rw [hanswer] at hnone
    contradiction
  cases h with
  | queued h => exact absurd h.pending hanswered
  | serving r h => exact absurd h.pending hanswered
  | replied before answer' after h => exact absurd h.pending hanswered
  | live answer' h =>
    obtain rfl := Option.some.inj (h.position.symm.trans hanswer)
    exact h
  | closed answer' h => exact absurd (hsink.symm.trans h.sink) (by simp)

theorem exited (hsound : s.Sound) (horderly : s.Orderly) (hexits : s.Exits)
    (hsink : s.sink = some k) (hposition : (s.streams k).position ≠ none)
    (hlink : s.link = .exited :: rest) (reader : Reader σ β) :
    Stage { s with link := rest, sink := none, reader } k := by
  obtain ⟨answer, hanswer⟩ := Option.ne_none_iff_exists'.mp hposition
  have hlive := h.of_answer horderly hsink hanswer
  have hended := hexits.notified (hexits.link (hlink ▸ List.mem_cons_self ..))
  have hflows := hlive.flows
  rw [hlink, outputs_cons, hlive.last [] rest hlink] at hflows
  exact .closed answer
    { sink := rfl
      position := hanswer
      ended := hended
      reached := hflows.trans (hlive.followed.mark_eq (hsound.drained hended)) }

end

end Stage

end Seam

/-! ## §3 A run -/

namespace Seam

variable {answer : StreamPosition} {k : Nat} {s : Seam σ β}

/-- What the next frame must not do to the stream it reaches: an answer
agrees with what was handed on ahead of it; a chunk ahead of it leaves no
gap, and the first chunk behind it, if its stream has not recorded it yet,
begins where it says; `exited` does not overtake it. -/
def FrameInStep (s : Seam σ β) : Frame σ β → Prop
  | .reply k answer => ∀ start ∈ (s.streams k).origin, start = answer.start
  | .output offset _ =>
    ∀ k ∈ s.sink, (s.streams k).guarded.stopped = false →
      ((s.streams k).position = none → ∀ e ∈ (s.streams k).guarded.expectedOffset, offset ≤ e) ∧
      ∀ answer ∈ (s.streams k).position,
        (s.streams k).guarded.expectedOffset = none → offset = answer.start
  | .exited => ∀ k ∈ s.sink, (s.streams k).position ≠ none
  | _ => True

instance (s : Seam σ β) : (frame : Frame σ β) → Decidable (s.FrameInStep frame)
  | .reply k answer =>
    inferInstanceAs (Decidable (∀ start ∈ (s.streams k).origin, start = answer.start))
  | .output offset _ =>
    inferInstanceAs (Decidable (∀ k ∈ s.sink, (s.streams k).guarded.stopped = false →
      ((s.streams k).position = none → ∀ e ∈ (s.streams k).guarded.expectedOffset, offset ≤ e) ∧
      ∀ answer ∈ (s.streams k).position,
        (s.streams k).guarded.expectedOffset = none → offset = answer.start))
  | .exited => inferInstanceAs (Decidable (∀ k ∈ s.sink, (s.streams k).position ≠ none))
  | .sniff _ | .blocks _ => .isTrue trivial

/-- The condition on a step: the frame the reader takes is in step, and a
stream that stops does not take another's sink away. -/
def InStep (s : Seam σ β) : SeamOp σ β → Prop
  | .stop k => (s.streams k).guarded.started = true → (s.streams k).guarded.stopped = false →
      ∀ j ∈ s.sink, j = k
  | .read => s.reader.stream = none → ∀ frame ∈ s.link.head?, s.FrameInStep frame
  | _ => True

instance (s : Seam σ β) : (op : SeamOp σ β) → Decidable (s.InStep op)
  | .stop k =>
    inferInstanceAs (Decidable ((s.streams k).guarded.started = true →
      (s.streams k).guarded.stopped = false → ∀ j ∈ s.sink, j = k))
  | .read =>
    inferInstanceAs (Decidable (s.reader.stream = none → ∀ frame ∈ s.link.head?, s.FrameInStep frame))
  | .append .. | .fanOut | .finishPump | .notify | .serve | .readEnded | .ship _ | .start _ | .hand
  | .readerFinish | .readerEnd | .accept _ | .acceptFinish _ | .acceptEnd _ => .isTrue trivial

/-- What holds of every state of a run that stays in step. -/
structure Clean (s : Seam σ β) : Prop where
  got : ∀ k, Got s.produced (s.streams k) (s.reader.on k)
  newest : ∀ k, s.sink = some k → k + 1 = s.started
  exits : s.Exits
  stage : ∀ k, k + 1 = s.started → (s.streams k).guarded.stopped = false → s.Stage k

theorem clean_new (capacity : Nat) : (new capacity : Seam σ β).Clean where
  got _ := Got.new.aside rfl rfl rfl rfl
  newest _ h := by contradiction
  exits := ⟨fun h => by contradiction, fun h => absurd h List.not_mem_nil⟩
  stage k h := by contradiction

namespace Exits

variable {s : Seam σ β}

theorem frames (h : s.Exits) {s' : Seam σ β} (hpump : s'.pumpEnded = s.pumpEnded)
    (hnotified : s'.notified = s.notified) (hlink : .exited ∈ s'.link → .exited ∈ s.link) : s'.Exits where
  notified := by
    rw [hpump, hnotified]
    exact h.notified
  link hmem := by
    rw [hnotified]
    exact h.link (hlink hmem)

theorem step (h : s.Exits) (limit : Nat) (name : String) (op : SeamOp σ β) :
    (s.step limit name op).Exits := by
  cases op with
  | append chunk sniffed blocks =>
    simp only [Seam.step, Seam.append]
    split <;> exact h.frames rfl rfl id
  | fanOut =>
    simp only [Seam.step, Seam.fanOut]
    split
    case h_2 => exact h
    case h_1 w _ _ =>
      split
      case isFalse => exact h.frames rfl rfl id
      case isTrue =>
        refine h.frames rfl rfl fun hmem => ?_
        exact (List.mem_append.mp hmem).resolve_right (exited_not_mem_output w)
  | finishPump =>
    simp only [Seam.step, Seam.finishPump]
    split
    case isTrue => exact h
    case isFalse => exact ⟨fun _ => rfl, h.link⟩
  | notify =>
    simp only [Seam.step, Seam.notify]
    split
    case h_2 => exact h
    case h_1 =>
      split
      case isFalse => exact h
      case isTrue hdue =>
        simp only [Bool.and_eq_true] at hdue
        exact ⟨fun _ => hdue.1, fun _ => rfl⟩
  | serve =>
    simp only [Seam.step, Seam.serve]
    split <;> exact h.frames rfl rfl id
  | readEnded =>
    simp only [Seam.step, Seam.readEnded]
    split <;> exact h.frames rfl rfl id
  | ship sniffed =>
    simp only [Seam.step, Seam.ship]
    split
    case h_2 => exact h
    case h_1 k asked r ended _ =>
      refine h.frames rfl rfl fun hmem => ?_
      rcases List.mem_append.mp hmem with hold | hnew
      · exact hold
      · rcases List.mem_cons.mp hnew with hreply | hbacklog
        · contradiction
        · exact absurd hbacklog (exited_not_mem_backlog limit r sniffed)
  | start fromOffset => exact h.frames rfl rfl id
  | stop k =>
    simp only [Seam.step, Seam.stop]
    split <;> exact h.frames rfl rfl id
  | read =>
    simp only [Seam.step, Seam.read]
    split
    case h_2 => exact h
    case h_1 frame rest _ hlink =>
      have hrest : .exited ∈ rest → .exited ∈ s.link := fun hmem => by
        rw [hlink]
        exact List.mem_cons_of_mem _ hmem
      split
      case h_4 offset payload k _ =>
        unfold Seam.deliver
        dsimp only
        split <;> exact h.frames rfl rfl hrest
      all_goals exact h.frames rfl rfl hrest
  | hand =>
    simp only [Seam.step, Seam.hand]
    split <;> exact h.frames rfl rfl id
  | readerFinish =>
    simp only [Seam.step, Seam.readerFinish]
    split <;> exact h.frames rfl rfl id
  | readerEnd =>
    simp only [Seam.step, Seam.readerEnd]
    split <;> exact h.frames rfl rfl id
  | accept k =>
    simp only [Seam.step, Seam.accept]
    split <;> exact h.frames rfl rfl id
  | acceptFinish k =>
    simp only [Seam.step, Seam.acceptFinish]
    split <;> exact h.frames rfl rfl id
  | acceptEnd k =>
    simp only [Seam.step, Seam.acceptEnd]
    split <;> exact h.frames rfl rfl id

end Exits

/-- The host's part of the state. -/
def host (s : Seam σ β) : Option Nat × Nat × (Nat → Stream σ β) × Reader σ β :=
  (s.sink, s.started, s.streams, s.reader)

namespace Clean

variable {s : Seam σ β}
variable {k : Nat} {rest : List (Frame σ β)}
variable {s' : Seam σ β} {f : Stream σ β → Stream σ β} {reader : Reader σ β} {frame : Frame σ β}

section

variable (h : s.Clean)
include h

theorem superd (hhost : s'.host = s.host)
    (hproduced : ∃ more, s'.produced = s.produced ++ more) (hexits : s'.Exits)
    (hstage : ∀ k, s.Stage k → s'.Stage k) : s'.Clean := by
  obtain ⟨more, hmore⟩ := hproduced
  simp only [host, Prod.mk.injEq] at hhost
  obtain ⟨hsink, hstarted, hstreams, hreader⟩ := hhost
  exact {
    got := fun k => by
      rw [hmore, hstreams, hreader]
      exact (h.got k).grow more
    newest := by
      rw [hsink, hstarted]
      exact h.newest
    exits := hexits
    stage := fun k hk hlive => by
      rw [hstarted] at hk
      rw [hstreams] at hlive
      exact hstage k (h.stage k hk hlive) }

theorem append (hsound : s.Sound) (chunk : List UInt8) (sniffed : List σ)
    (blocks : List β) (hexits : (s.append chunk sniffed blocks).Exits) :
    (s.append chunk sniffed blocks).Clean := by
  refine h.superd ?_ ?_ hexits fun k hk => hk.append hsound chunk sniffed blocks
  · unfold Seam.append
    split <;> rfl
  · unfold Seam.append
    split
    case isTrue => exact ⟨[], (List.append_nil _).symm⟩
    case isFalse => exact ⟨chunk, rfl⟩

/-- A step of one stream's, or of the reader for it, that takes nothing off
the link. -/
theorem at_stream (hproduced : s'.produced = s.produced)
    (hsink : s'.sink = s.sink) (hstarted : s'.started = s.started) (hexits : s'.Exits)
    (hothers : ∀ i, i ≠ k → s'.streams i = s.streams i ∧ s'.reader.on i = s.reader.on i)
    (hstopped : (s'.streams k).guarded.stopped = false → (s.streams k).guarded.stopped = false)
    (hk : Got s.produced (s'.streams k) (s'.reader.on k))
    (hstage : ∀ i, i + 1 = s.started → (s.streams i).guarded.stopped = false → s.Stage i →
      s'.Stage i) : s'.Clean where
  got i := by
    rw [hproduced]
    by_cases hi : i = k
    case pos =>
      obtain rfl := hi
      exact hk
    case neg =>
      rw [(hothers i hi).1, (hothers i hi).2]
      exact h.got i
  newest := by
    rw [hsink, hstarted]
    exact h.newest
  exits := hexits
  stage i hi hlive := by
    rw [hstarted] at hi
    have hwas : (s.streams i).guarded.stopped = false := by
      grind
    exact hstage i hi hwas (h.stage i hi hwas)

theorem modify (hstopped : (f (s.streams k)).guarded.stopped = false → (s.streams k).guarded.stopped = false)
    (hk : Got s.produced (f (s.streams k)) (s.reader.on k))
    (hstage : ∀ i, i + 1 = s.started → (s.streams i).guarded.stopped = false → s.Stage i →
      (s.modify k f).Stage i) : (s.modify k f).Clean := by
  refine h.at_stream (k := k) rfl rfl rfl { h.exits with } (fun i hi => ⟨s.modify_other hi f, rfl⟩)
    ?_ ?_ hstage
  · rw [modify_self]
    exact hstopped
  · rw [modify_self]
    exact hk

theorem turn (hwas : s.reader.At k) (hnow : reader.At k)
    (hstopped : (f (s.streams k)).guarded.stopped = false → (s.streams k).guarded.stopped = false)
    (hk : Got s.produced (f (s.streams k)) reader)
    (hstage : ∀ i, i + 1 = s.started → (s.streams i).guarded.stopped = false → s.Stage i →
      (s.modify k f).Stage i) : Clean { s.modify k f with reader } := by
  refine h.at_stream (k := k) rfl rfl rfl { h.exits with }
    (fun i hi => ⟨s.modify_other hi f, ?_⟩) ?_ ?_ fun i hi hlive hat => (hstage i hi hlive hat).turn _
  · rw [hwas.on_other hi, hnow.on_other hi]
  · rw [modify_self]
    exact hstopped
  · rw [modify_self, hnow.on_self]
    exact hk

theorem busy (hreader : s.reader = reader) (hat : reader.At k) : Got s.produced (s.streams k) reader := by
  have hk := h.got k
  rwa [hreader, hat.on_self] at hk

theorem start (horderly : s.Orderly) (fromOffset : Nat) : (s.start fromOffset).Clean := by
  have hidle : s.reader.on s.started = .idle :=
    if_neg fun hbusy => Nat.lt_irrefl _ (horderly.reader _ hbusy)
  rw [start_eq]
  exact {
    got := fun k => by
      by_cases hk : k = s.started
      case pos =>
        obtain rfl := hk
        rw [modify_self, show (s.modify s.started fun _ => _).reader.on s.started = .idle from hidle]
        exact .new
      case neg =>
        rw [s.modify_other hk]
        exact h.got k
    newest := fun k hk => by
      obtain rfl := Option.some.inj hk
      rfl
    exits := { h.exits with }
    stage := fun k hk _ => by
      obtain rfl := Nat.succ.inj hk
      exact .queued ⟨rfl, s.requests, fromOffset, rfl⟩ }

theorem stop (hok : s.InStep (.stop k)) : (s.stop k).Clean := by
  have hstopped : Clean (s.modify k fun t => { t with guarded := (s.streams k).guarded.stop.2.2 }) :=
    h.modify (fun hlive => by contradiction) ((h.got k).aside rfl rfl rfl rfl)
      fun i _ _ hat => hat.modify (fun _ => rfl) fun hsame => hsame ▸ rfl
  unfold Seam.stop
  dsimp only
  split
  case isFalse => exact hstopped
  case isTrue hleaves =>
    obtain ⟨hlive, hstarted⟩ : (s.streams k).guarded.stopped = false ∧
        (s.streams k).guarded.started = true := by simpa [Guarded.stop] using hleaves
    have hsink := hok hstarted hlive
    exact { hstopped with
      newest := fun _ hnone => by contradiction
      exits := { hstopped.exits with }
      stage := fun i hi hilive => by
        -- it was its own sink, so a newest stream that goes on has none
        have hik : i ≠ k := by
          rintro rfl
          rw [modify_self] at hilive
          contradiction
        cases hstopped.stage i hi hilive with
        | queued hat => exact absurd (hsink i hat.sink) hik
        | serving r hat => exact absurd (hsink i hat.sink) hik
        | replied before answer after hat => exact absurd (hsink i hat.sink) hik
        | live answer hat => exact absurd (hsink i hat.sink) hik
        | closed answer hat => exact .closed answer { hat with sink := rfl } }

theorem hand : s.hand.Clean := by
  unfold Seam.hand
  split
  case h_2 => exact h
  case h_1 k handover hreader =>
    have hat : s.reader.At k := .inr (congrArg Reader.stream hreader)
    have hcalls : (if handover.last then .finishing k else .idle : Reader σ β).calls = [] := by
      split <;> rfl
    refine h.turn hat (Reader.at_ite (.inr rfl) (.inl rfl)) id
      ((h.busy hreader (.inr rfl)).aside ?_ rfl rfl rfl)
      fun i _ _ hstage => hstage.modify (fun _ => rfl) (fun _ => rfl)
    rw [gotten, gotten, hcalls, payloads_append]
    exact List.append_nil _

theorem readerFinish : s.readerFinish.Clean := by
  unfold Seam.readerFinish
  split
  case h_2 => exact h
  case h_1 k hreader =>
    have hat : s.reader.At k := .inr (congrArg Reader.stream hreader)
    have hcalls (tell : Bool) : (if tell then .ending k else .idle : Reader σ β).calls = [] := by
      split <;> rfl
    refine h.turn hat (Reader.at_ite (.inr rfl) (.inl rfl)) id
      ((h.busy hreader (.inr rfl)).aside ?_ rfl rfl rfl)
      fun i _ _ hstage => hstage.modify (fun _ => rfl) (fun hsame => hsame ▸ rfl)
    rw [gotten, gotten, hcalls]
    rfl

theorem readerEnd : s.readerEnd.Clean := by
  unfold Seam.readerEnd
  split
  case h_2 => exact h
  case h_1 k hreader =>
    have hat : s.reader.At k := .inr (congrArg Reader.stream hreader)
    refine h.turn hat (.inl rfl) id ((h.busy hreader (.inr rfl)).aside ?_ rfl rfl rfl)
      fun i _ _ hstage => hstage.modify (fun _ => rfl) (fun _ => rfl)
    rw [gotten, gotten, payloads_append, payloads_ended, List.append_nil]
    rfl

theorem accept (hsound : s.Sound) (horderly : s.Orderly) (name : String) (k : Nat) :
    (s.accept name k).Clean := by
  unfold Seam.accept
  split
  case h_2 => exact h
  case h_1 answer hreplied =>
    have hanswer := (hsound.streams k).acceptor answer hreplied
    have hbounds := (hsound.streams k).position answer hanswer
    have hasked : k ∉ s.pending := fun hmem => by
      have hwaiting := (horderly.asked k hmem).2.1
      rw [hreplied] at hwaiting
      contradiction
    refine h.modify id ((h.got k).accept hanswer ?_ rfl ?_ _) fun i _ _ hat => ?_
    · exact Nat.le_trans hbounds.start_le hbounds.head_le
    · split <;> rfl
    · by_cases hik : k = i
      case pos =>
        obtain rfl := hik
        exact hat.accept hanswer hasked rfl rfl
      case neg => exact hat.modify (fun hsame => absurd hsame hik) fun hsame => absurd hsame hik

theorem acceptFinish (k : Nat) : (s.acceptFinish k).Clean := by
  unfold Seam.acceptFinish
  split
  case h_2 => exact h
  case h_1 =>
    exact h.modify id ((h.got k).aside rfl rfl rfl rfl)
      fun i _ _ hat => hat.modify (fun _ => rfl) fun hsame => hsame ▸ rfl

theorem acceptEnd (k : Nat) : (s.acceptEnd k).Clean := by
  unfold Seam.acceptEnd
  split
  case h_2 => exact h
  case h_1 =>
    refine h.modify id ((h.got k).aside ?_ rfl rfl rfl)
      fun i _ _ hat => hat.modify (fun _ => rfl) fun _ => rfl
    rw [gotten, gotten, payloads_append, payloads_ended, List.append_nil]

theorem pop (hlink : s.link = frame :: rest)
    (hquiet : outputs [frame] = []) (hother : ∀ k answer, frame ≠ .reply k answer) :
    Clean { s with link := rest } :=
  { h with
    exits := h.exits.frames rfl rfl fun hmem => by
      rw [hlink]
      exact List.mem_cons_of_mem _ hmem
    stage := fun k hk hlive => (h.stage k hk hlive).pop hlink hquiet (hother k) }

theorem events (k : Nat) (guarded : Guarded σ β → Guarded σ β)
    (hguarded : ∀ g, (guarded g).expectedOffset = g.expectedOffset ∧ (guarded g).stopped = g.stopped) :
    (s.modify k fun t => { t with guarded := guarded t.guarded }).Clean :=
  h.modify (fun hlive => (hguarded _).2.symm.trans hlive)
    ((h.got k).aside rfl rfl (hguarded _).1 rfl)
    fun _ _ _ hat => hat.modify (fun _ => rfl) fun _ => (hguarded _).1

theorem reply (horderly : s.Orderly) {answer : StreamPosition}
    (hlink : s.link = .reply k answer :: rest) (hok : s.FrameInStep (.reply k answer)) :
    (Seam.modify { s with link := rest } k fun t =>
      { t with acceptor := .replied answer, position := some answer }).Clean := by
  have hpopped (i : Nat) (hi : i ≠ k) (hat : s.Stage i) : Stage { s with link := rest } i :=
    hat.pop hlink rfl fun answer' hsame => hi (Frame.reply.inj hsame).1.symm
  refine h.at_stream (k := k) rfl rfl rfl (h.exits.frames rfl rfl fun hmem => ?_)
    (fun i hi => ⟨modify_other _ hi _, rfl⟩) ?_ ?_ fun i hi hlive hat => ?_
  · rw [hlink]
    exact List.mem_cons_of_mem _ hmem
  · rw [modify_self]
    exact id
  · rw [modify_self]
    exact {
      accounts := by
        cases (h.got k).accounts with
        | fresh origin expected got => exact .fresh origin expected got
        | since start origin expected placed => exact .since start origin expected placed
      origin := fun position start hposition horigin => by
        obtain rfl := Option.some.inj hposition
        exact hok start horigin }
  · by_cases hik : i = k
    case pos =>
      obtain rfl := hik
      exact hat.reply horderly (h.got i).accounts hlink hok
    case neg =>
      exact (hpopped i hik hat).modify (fun hsame => absurd hsame.symm hik) fun hsame =>
        absurd hsame.symm hik

theorem deliver (hsound : s.Sound) (horderly : s.Orderly) (hidle : s.reader = .idle)
    (name : String) (hsink : s.sink = some k) {offset : Nat} {payload : List UInt8}
    (hlink : s.link = .output offset payload :: rest) (hok : s.FrameInStep (.output offset payload)) :
    (Seam.deliver name { s with link := rest } k offset payload).Clean := by
  have hplaced := hsound.outputs (offset, payload) (by simp [hlink, HostPane.outputs])
  have hexpected := @Guarded.expected_bytes _ _ name (s.streams k).guarded offset payload
  have hkept := (@Guarded.kept_bytes _ _ name (s.streams k).guarded offset payload).1
  have hrest : .exited ∈ rest → .exited ∈ s.link := fun hmem => by
    rw [hlink]
    exact List.mem_cons_of_mem _ hmem
  -- the stream the sink belongs to is the newest one
  have hother (i : Nat) (hi : i + 1 = s.started) : k = i := Nat.succ.inj ((h.newest k hsink).trans hi.symm)
  unfold Seam.deliver
  dsimp only
  cases hstopped : (s.streams k).guarded.stopped with
  | true =>
    rw [Guarded.bytes_stopped hstopped]
    rw [hstopped, if_pos rfl] at hexpected
    refine h.at_stream (k := k) rfl rfl rfl (h.exits.frames rfl rfl hrest)
      (fun i hi => ⟨modify_other _ hi _, rfl⟩) ?_ ?_ fun i hi hlive _ => ?_
    · rw [modify_self]
      exact hkept.symm.trans
    · rw [modify_self]
      exact (h.got k).aside rfl rfl hexpected rfl
    · obtain rfl := hother i hi
      exact absurd (hlive.symm.trans hstopped) (by simp)
  | false =>
    obtain ⟨handover, hhandover, _⟩ := @Guarded.bytes_live _ _ name _ hstopped offset payload
    rw [hstopped] at hexpected
    rw [hhandover]
    have hstep := hok k hsink hstopped
    have hnear (e : Nat) (he : (s.streams k).guarded.expectedOffset = some e) : offset ≤ e := by
      cases hanswer : (s.streams k).position with
      | none => exact hstep.1 hanswer e he
      | some answer =>
        have hflows := ((h.stage k (h.newest k hsink) hstopped).of_answer horderly hsink hanswer).flows
        rw [hlink, he] at hflows
        exact hflows.1
    have hstart (answer : StreamPosition) (hanswer : (s.streams k).position = some answer)
        (hnone : (s.streams k).guarded.expectedOffset = none) : offset = answer.start :=
      hstep.2 answer hanswer hnone
    have hgot := (h.busy (k := k) hidle (.inl rfl)).bytes hstopped hplaced hnear hstart hhandover k
    have hat : (.handing k handover : Reader σ β).At k := .inr rfl
    refine h.at_stream (k := k) rfl rfl rfl (h.exits.frames rfl rfl hrest)
      (fun i hi => ⟨?_, ?_⟩) ?_ ?_ fun i hi hlive hstage => ?_
    · rw [modify_other _ hi]
    · rw [hat.on_other hi, hidle]
      rfl
    · rw [modify_self]
      exact hkept.symm.trans
    · rw [modify_self, hat.on_self]
      exact hgot
    · obtain rfl := hother i hi
      exact (hstage.output hsink hlink hstart rfl hexpected).turn _

theorem exited (hsound : s.Sound) (horderly : s.Orderly) (hidle : s.reader = .idle)
    (hsink : s.sink = some k) (hlink : s.link = .exited :: rest) (hok : s.FrameInStep .exited) :
    Clean { s with link := rest, sink := none, reader := .finishing k } where
  got i := by
    have hgot := h.got i
    rw [hidle] at hgot
    refine hgot.aside ?_ rfl rfl rfl
    have hcalls : ((.finishing k : Reader σ β).on i).calls = [] := by
      unfold Reader.on
      split <;> rfl
    rw [gotten, gotten, hcalls]
    rfl
  newest _ hnone := by contradiction
  exits := h.exits.frames rfl rfl fun hmem => by
    rw [hlink]
    exact List.mem_cons_of_mem _ hmem
  stage i hi hlive := by
    obtain rfl : k = i := Nat.succ.inj ((h.newest k hsink).trans hi.symm)
    exact (h.stage k hi hlive).exited hsound horderly h.exits hsink (hok k hsink) hlink _

theorem skip (hnone : s.sink = none) (hlink : s.link = frame :: rest) : Clean { s with link := rest } :=
  { h with
    exits := h.exits.frames rfl rfl fun hmem => by
      rw [hlink]
      exact List.mem_cons_of_mem _ hmem
    stage := fun k hk hlive => by
      cases h.stage k hk hlive with
      | queued hat => exact absurd (hnone.symm.trans hat.sink) (by simp)
      | serving r hat => exact absurd (hnone.symm.trans hat.sink) (by simp)
      | replied before answer after hat => exact absurd (hnone.symm.trans hat.sink) (by simp)
      | live answer hat => exact absurd (hnone.symm.trans hat.sink) (by simp)
      | closed answer hat => exact .closed answer { hat with } }

theorem read (hsound : s.Sound) (horderly : s.Orderly) (name : String)
    (hok : s.InStep .read) : (s.read name).Clean := by
  unfold Seam.read
  split
  case h_2 => exact h
  case h_1 frame rest hidle hlink =>
    have hframe := hok (by rw [hidle]; rfl) frame (by rw [hlink]; rfl)
    dsimp only
    split
    case h_1 k answer => exact h.reply horderly hlink hframe
    case h_2 events k _ =>
      exact (h.pop hlink rfl fun _ _ => by simp).events k (·.sniffed events)
        fun _ => ⟨rfl, rfl⟩
    case h_3 events k _ =>
      exact (h.pop hlink rfl fun _ _ => by simp).events k (·.blocks events)
        fun _ => ⟨rfl, rfl⟩
    case h_4 offset payload k hsink =>
      exact h.deliver hsound horderly hidle name hsink hlink hframe
    case h_5 k hsink => exact h.exited hsound horderly hidle hsink hlink hframe
    case h_6 hnone => exact h.skip hnone hlink

theorem step (hsound : s.Sound) (horderly : s.Orderly) (limit : Nat) (name : String)
    {op : SeamOp σ β} (hok : s.InStep op) : (s.step limit name op).Clean := by
  have hexits := h.exits.step limit name op
  cases op with
  | append chunk sniffed blocks => exact h.append hsound chunk sniffed blocks hexits
  | fanOut =>
    refine h.superd ?_ ⟨[], ?_⟩ hexits fun k hk => hk.fanOut hsound h.exits
    all_goals
      simp only [Seam.step, Seam.fanOut, List.append_nil]
      split
      case h_2 => rfl
      case h_1 => split <;> rfl
  | finishPump =>
    refine h.superd ?_ ⟨[], ?_⟩ hexits fun k hk => hk.finishPump
    all_goals
      simp only [Seam.step, Seam.finishPump, List.append_nil]
      split <;> rfl
  | notify =>
    refine h.superd ?_ ⟨[], ?_⟩ hexits fun k hk => hk.notify h.exits
    all_goals
      simp only [Seam.step, Seam.notify, List.append_nil]
      split
      case h_2 => rfl
      case h_1 => split <;> rfl
  | serve =>
    refine h.superd ?_ ⟨[], ?_⟩ hexits fun k hk => hk.serve hsound
    all_goals
      simp only [Seam.step, Seam.serve, List.append_nil]
      split <;> rfl
  | readEnded =>
    refine h.superd ?_ ⟨[], ?_⟩ hexits fun k hk => hk.readEnded
    all_goals
      simp only [Seam.step, Seam.readEnded, List.append_nil]
      split <;> rfl
  | ship sniffed =>
    refine h.superd ?_ ⟨[], ?_⟩ hexits fun k hk => hk.ship hsound limit sniffed
    all_goals
      simp only [Seam.step, Seam.ship, List.append_nil]
      split <;> rfl
  | start fromOffset => exact h.start horderly fromOffset
  | stop k => exact h.stop hok
  | read => exact h.read hsound horderly name hok
  | hand => exact h.hand
  | readerFinish => exact h.readerFinish
  | readerEnd => exact h.readerEnd
  | accept k => exact h.accept hsound horderly name k
  | acceptFinish k => exact h.acceptFinish k
  | acceptEnd k => exact h.acceptEnd k

end

end Clean

/-- Nothing is on its way. -/
structure Settled (s : Seam σ β) : Prop where
  waiting : s.waiting = none
  requests : s.requests = []
  wire : s.wire = .free
  link : s.link = []
  reader : s.reader = .idle

/-- A newest stream that goes on has the whole output once nothing is on its
way. -/
theorem Stage.settled (h : s.Stage k) (hsettled : s.Settled)
    (hanswer : (s.streams k).position = some answer) :
    (s.streams k).guarded.expectedOffset.getD answer.start = s.produced.length := by
  cases h with
  | queued h =>
    obtain ⟨before, fromOffset, hqueue⟩ := h.requests
    exact absurd (hsettled.requests.symm.trans hqueue) (by simp)
  | serving r h =>
    have hheld := h.wire
    rw [hsettled.wire] at hheld
    contradiction
  | replied before answer' after h => exact absurd (hsettled.link.symm.trans h.link) (by simp)
  | live answer' h =>
    obtain rfl := Option.some.inj (h.position.symm.trans hanswer)
    have hflows := h.flows
    rw [hsettled.link] at hflows
    exact hflows.trans (h.followed.mark_eq hsettled.waiting)
  | closed answer' h =>
    obtain rfl := Option.some.inj (h.position.symm.trans hanswer)
    exact h.reached

theorem Clean.delivered (h : s.Clean) (hsound : s.Sound) (hanswer : (s.streams k).position = some answer) :
    payloads (s.streams k).calls <+: s.produced.drop answer.start ∧
    (s.Settled → k + 1 = s.started → (s.streams k).guarded.stopped = false →
      payloads (s.streams k).calls = s.produced.drop answer.start) := by
  have hbounds := (hsound.streams k).position answer hanswer
  obtain ⟨hplaced, hreached⟩ := (h.got k).placed hanswer (Nat.le_trans hbounds.start_le hbounds.head_le)
  refine ⟨(List.prefix_append ..).trans hplaced.2, fun hsettled hnewest hlive => ?_⟩
  have hgot : gotten (s.streams k) (s.reader.on k) = payloads (s.streams k).calls := by
    rw [hsettled.reader]
    exact List.append_nil _
  rw [hgot] at hplaced hreached
  exact hplaced.eq_drop (hreached.symm.trans ((h.stage k hnewest hlive).settled hsettled hanswer))

theorem clean_run (capacity limit : Nat) (name : String) {ops : List (SeamOp σ β)}
    (hops : Meets (step limit name) InStep (Seam.new capacity) ops) :
    (run (step limit name) (Seam.new capacity) ops).Clean := by
  refine (hops.invariant (fun s => s.Clean ∧ s.Sound ∧ s.Orderly) ?_
    ⟨clean_new capacity, sound_new capacity, orderly_new capacity⟩).1
  rintro s op hok ⟨hclean, hsound, horderly⟩
  exact ⟨hclean.step hsound horderly limit name hok, hsound.step limit name op,
    horderly.step limit name op⟩

/-- **A new stream starts clean.** In a run that stays in step, what a stream
was handed is the pane's output from the start it was answered with, in
order and without a gap; and a stream that goes on, with no newer one, has
been handed all of it once nothing is on its way. -/
theorem starts_clean (capacity limit : Nat) (name : String) {ops : List (SeamOp σ β)}
    (hops : Meets (step limit name) InStep (Seam.new capacity) ops) (k : Nat) :
    let s := run (step limit name) (Seam.new capacity) ops
    ∀ answer, (s.streams k).position = some answer →
      payloads (s.streams k).calls <+: s.produced.drop answer.start ∧
      (s.Settled → k + 1 = s.started → (s.streams k).guarded.stopped = false →
        payloads (s.streams k).calls = s.produced.drop answer.start) := by
  intro s answer hanswer
  exact (clean_run capacity limit name hops).delivered (sound_run capacity limit name ops) hanswer

/-- A stream that takes the pane over from one that had everything. -/
theorem starts_clean_again :
    let ops : List (SeamOp Unit Unit) := [.start 0, .serve, .readEnded, .ship [], .read, .accept 0,
      .append [0x61, 0x62] [] [], .fanOut, .read, .hand, .stop 0, .start 0, .serve, .serve, .readEnded,
      .ship [], .read, .read, .accept 1, .hand]
    payloads ((run (step 64 "p") (Seam.new 8) ops).streams 1).calls = [0x61, 0x62] := by
  intro ops
  have hops : Meets (step 64 "p") InStep (Seam.new 8) ops := by decide +kernel
  have hsettled : (run (step 64 "p") (Seam.new 8) ops).Settled :=
    ⟨by decide +kernel, by decide +kernel, by decide +kernel, by decide +kernel, by rfl⟩
  exact ((starts_clean 8 64 "p" hops 1) ⟨0, 2, false, false⟩ (by decide +kernel)).2 hsettled rfl
    (by decide +kernel)

/-- The frame of the first stream's subscription that was in flight when it
stopped reaches the second one's sink ahead of its answer: it counts from
there, and its whole backlog is cut. -/
theorem skips_own_backlog :
    let ops : List (SeamOp Unit Unit) := [.append [0x61, 0x62] [] [], .fanOut, .start 2, .serve,
      .readEnded, .ship [], .read, .accept 0, .append [0x63, 0x64] [] [], .fanOut, .stop 0, .start 0,
      .serve, .serve, .readEnded, .ship [], .read, .hand, .read, .read, .accept 1, .hand]
    let s := run (step 64 "p") (Seam.new 8) ops
    ¬(∀ k answer, (s.streams k).position = some answer →
      payloads (s.streams k).calls <+: s.produced.drop answer.start) := by
  intro ops s h
  have hleading := h 1 ⟨0, 4, false, false⟩ (by decide +kernel)
  exact absurd hleading (by decide)

end Seam

end SlopDesk.HostPane
