/-
SlopDesk.HostPane.FirstStream — the first stream on a pane is handed each
byte once.

With one stream, never stopped, nothing is sent for the pane before its
request is served, so nothing reaches its sink ahead of its answer but the
pane's `exited`. What is left to go wrong is the first chunk behind the
answer. If the snapshot took a chunk that was not fanned out yet and the
backlog holds none of it, that chunk is sent whole, and a stream that has
not recorded its answer takes all of it.
-/
import Mathlib.Algebra.GroupWithZero.Nat
import SlopDesk.HostPane.CleanStart

namespace SlopDesk.HostPane

open SlopDesk.Base
open SlopDesk.Superd

variable {σ β : Type}

/-! ## §1 Ahead of the answer -/

/-- No chunk on the link is ahead of the answer: none was sent, or the
answer leads. -/
inductive Led (registered : Bool) (link : List (Frame σ β)) : Prop
  | idle (registered : registered = false) (quiet : outputs link = [])
  | led (before : List (Frame σ β)) (answer : StreamPosition) (after : List (Frame σ β))
      (link : link = before ++ .reply 0 answer :: after) (quiet : outputs before = [])

namespace Led

variable {registered : Bool} {link : List (Frame σ β)}

theorem append (h : Led registered link) {more : List (Frame σ β)}
    (hmore : registered = true ∨ outputs more = []) : Led registered (link ++ more) := by
  cases h with
  | idle hregistered quiet =>
    refine .idle hregistered ?_
    rcases hmore with hyes | hnone
    · exact absurd (hregistered.symm.trans hyes) (by simp)
    · rw [outputs_append, quiet, hnone]
      rfl
  | led before answer after hlink quiet =>
    exact .led before answer (after ++ more) (by rw [hlink, List.append_assoc]; rfl) quiet

theorem drop (h : Led registered link) : Led false link := by
  cases h with
  | idle _ quiet => exact .idle rfl quiet
  | led before answer after hlink quiet => exact .led before answer after hlink quiet

theorem ship (h : Led registered link) (answer : StreamPosition) (more : List (Frame σ β)) :
    Led true (link ++ .reply 0 answer :: more) := by
  cases h with
  | idle _ quiet => exact .led link answer more rfl quiet
  | led before answer' after hlink quiet =>
    exact .led before answer' (after ++ .reply 0 answer :: more)
      (by rw [hlink, List.append_assoc]; rfl) quiet

theorem pop {frame : Frame σ β} {rest : List (Frame σ β)} (h : Led registered (frame :: rest))
    (hother : ∀ answer, frame ≠ .reply 0 answer) : outputs [frame] = [] ∧ Led registered rest := by
  cases h with
  | idle hregistered quiet =>
    rw [outputs_cons] at quiet
    obtain ⟨hframe, hrest⟩ := List.append_eq_nil_iff.mp quiet
    exact ⟨hframe, .idle hregistered hrest⟩
  | led before answer after hlink quiet =>
    cases before with
    | nil => exact absurd (List.cons.inj hlink).1 (hother answer)
    | cons first before =>
      obtain ⟨rfl, hrest⟩ := List.cons.inj hlink
      rw [outputs_cons] at quiet
      obtain ⟨hframe, hbefore⟩ := List.append_eq_nil_iff.mp quiet
      exact ⟨hframe, .led before answer after hrest hbefore⟩

end Led

namespace Seam

/-- One stream at most, and it goes on; until its answer is read it has been
handed nothing. -/
structure Solo (s : Seam σ β) : Prop where
  started : s.started ≤ 1
  asked : s.started = 0 → (s.streams 0).position = none
  live : (s.streams 0).guarded.stopped = false
  fresh : (s.streams 0).position = none → (s.streams 0).guarded.expectedOffset = none ∧
    (s.streams 0).origin = none ∧ Led s.registered s.link

/-- What the frame the reader takes must not do to the one stream: the first
chunk behind its answer, if it has not recorded that yet, begins where the
answer says, and `exited` does not overtake the answer. -/
def FirstFrame (s : Seam σ β) : Frame σ β → Prop
  | .output offset _ =>
    ∀ answer ∈ (s.streams 0).position,
      (s.streams 0).guarded.expectedOffset = none → offset = answer.start
  | .exited => ∀ k ∈ s.sink, (s.streams k).position ≠ none
  | _ => True

instance (s : Seam σ β) : (frame : Frame σ β) → Decidable (s.FirstFrame frame)
  | .output offset _ =>
    inferInstanceAs (Decidable (∀ answer ∈ (s.streams 0).position,
      (s.streams 0).guarded.expectedOffset = none → offset = answer.start))
  | .exited => inferInstanceAs (Decidable (∀ k ∈ s.sink, (s.streams k).position ≠ none))
  | .reply .. | .sniff _ | .blocks _ => .isTrue trivial

/-- One stream, never stopped, whose first frames are in step. -/
def Alone (s : Seam σ β) : SeamOp σ β → Prop
  | .start _ => s.started = 0
  | .stop _ => False
  | .read => s.reader.stream = none → ∀ frame ∈ s.link.head?, s.FirstFrame frame
  | _ => True

instance (s : Seam σ β) : (op : SeamOp σ β) → Decidable (s.Alone op)
  | .start _ => inferInstanceAs (Decidable (s.started = 0))
  | .stop _ => .isFalse id
  | .read =>
    inferInstanceAs (Decidable (s.reader.stream = none → ∀ frame ∈ s.link.head?, s.FirstFrame frame))
  | .append .. | .fanOut | .finishPump | .notify | .serve | .readEnded | .ship _ | .hand
  | .readerFinish | .readerEnd | .accept _ | .acceptFinish _ | .acceptEnd _ => .isTrue trivial

theorem solo_new (capacity : Nat) : (new capacity : Seam σ β).Solo where
  started := Nat.zero_le 1
  asked _ := rfl
  live := rfl
  fresh _ := ⟨rfl, rfl, .idle rfl rfl⟩

namespace Solo

variable {s : Seam σ β}
variable {k : Nat} {rest : List (Frame σ β)}
variable {f : Stream σ β → Stream σ β} {op : SeamOp σ β}

section

variable (h : s.Solo)
include h

theorem eq_zero (hk : k < s.started) : k = 0 := by
  have hle := h.started
  omega

theorem superd {s' : Seam σ β} (hhost : s'.host = s.host)
    (hled : Led s.registered s.link → Led s'.registered s'.link) : s'.Solo := by
  simp only [host, Prod.mk.injEq] at hhost
  obtain ⟨_, hstarted, hstreams, _⟩ := hhost
  refine ⟨hstarted ▸ h.started, ?_, ?_, ?_⟩
  · rw [hstarted, hstreams]
    exact h.asked
  · rw [hstreams]
    exact h.live
  · rw [hstreams]
    intro hnone
    obtain ⟨hexpected, horigin, hlink⟩ := h.fresh hnone
    exact ⟨hexpected, horigin, hled hlink⟩

theorem modify (hlive : (f (s.streams k)).guarded.stopped = (s.streams k).guarded.stopped)
    (hfresh : (f (s.streams k)).position = none → (s.streams k).position = none ∧
      (f (s.streams k)).guarded.expectedOffset = (s.streams k).guarded.expectedOffset ∧
      (f (s.streams k)).origin = (s.streams k).origin)
    (hasked : s.started = 0 → (f (s.streams k)).position = (s.streams k).position) :
    (s.modify k f).Solo := by
  by_cases hk : 0 = k
  case pos =>
    obtain rfl := hk
    refine ⟨h.started, fun hzero => ?_, ?_, ?_⟩
    · exact (hasked hzero).trans (h.asked hzero)
    · exact hlive.trans h.live
    · intro hnone
      obtain ⟨hwas, hexpected, horigin⟩ := hfresh hnone
      obtain ⟨hexpected', horigin', hled⟩ := h.fresh hwas
      exact ⟨hexpected.trans hexpected', horigin.trans horigin', hled⟩
  case neg =>
    refine ⟨h.started, fun hzero => ?_, ?_, ?_⟩
    · rw [modify_other _ hk]
      exact h.asked hzero
    · rw [modify_other _ hk]
      exact h.live
    · rw [modify_other _ hk]
      exact h.fresh

theorem aside (hlive : (f (s.streams k)).guarded.stopped = (s.streams k).guarded.stopped)
    (hposition : (f (s.streams k)).position = (s.streams k).position)
    (hexpected : (f (s.streams k)).guarded.expectedOffset = (s.streams k).guarded.expectedOffset)
    (horigin : (f (s.streams k)).origin = (s.streams k).origin) : (s.modify k f).Solo :=
  h.modify hlive (fun hnone => ⟨hposition ▸ hnone, hexpected, horigin⟩) fun _ => hposition

theorem turn (reader : Reader σ β) : Solo { s with reader } := { h with }

theorem start (hzero : s.started = 0) (fromOffset : Nat) : (s.start fromOffset).Solo := by
  obtain ⟨_, _, hled⟩ := h.fresh (h.asked hzero)
  have hstreams : (s.start fromOffset).streams 0 = { guarded := { started := true } } := by
    rw [start_eq, ← hzero]
    exact s.modify_self _ fun _ => { guarded := { started := true } }
  refine ⟨?_, ?_, ?_, ?_⟩
  · rw [start_eq]
    dsimp only
    omega
  · exact fun hnone => by contradiction
  · rw [hstreams]
  · rw [hstreams]
    exact fun _ => ⟨rfl, rfl, hled⟩

/-- Where the reader comes upon a frame other than the answer, the answer is
read or the frame is no chunk. -/
theorem pop {frame : Frame σ β} (hlink : s.link = frame :: rest)
    (hother : ∀ answer, frame ≠ .reply 0 answer) : Solo { s with link := rest } :=
  { h with
    fresh := fun hnone => by
      obtain ⟨hexpected, horigin, hled⟩ := h.fresh hnone
      rw [hlink] at hled
      exact ⟨hexpected, horigin, (hled.pop hother).2⟩ }

theorem reply (horderly : s.Orderly) {answer : StreamPosition} (hlink : s.link = .reply k answer :: rest) :
    (Seam.modify { s with link := rest } k fun t =>
      { t with acceptor := .replied answer, position := some answer }).Solo := by
  have hasked := (horderly.asked k (by simp [pending, hlink, replies])).1
  obtain rfl := h.eq_zero hasked
  refine ⟨h.started, fun hzero => absurd hzero (Nat.ne_of_gt hasked), ?_, ?_⟩
  · exact h.live
  · exact fun hnone => by contradiction

theorem deliver (horderly : s.Orderly) (name : String) (hsink : s.sink = some k)
    {offset : Nat} {payload : List UInt8} (hlink : s.link = .output offset payload :: rest) :
    (Seam.deliver name { s with link := rest } k offset payload).Solo := by
  obtain rfl := h.eq_zero (horderly.sink k hsink)
  have hpopped : Solo { s with link := rest } := h.pop hlink fun _ => by simp
  have hkept := (@Guarded.kept_bytes _ _ name (s.streams 0).guarded offset payload).1
  -- a chunk is behind the answer
  have hanswered : (s.streams 0).position ≠ none := by
    intro hnone
    have hled := (h.fresh hnone).2.2
    rw [hlink] at hled
    exact absurd (hled.pop fun _ => by simp).1 (by simp [outputs])
  unfold Seam.deliver
  dsimp only
  split
  case h_1 =>
    exact hpopped.modify hkept (fun hnone => absurd hnone hanswered) fun _ => rfl
  case h_2 =>
    exact (hpopped.modify (f := fun t =>
      { t with
        guarded := ((s.streams 0).guarded.bytes name offset payload).1
        origin := t.origin.or (some offset) }) hkept (fun hnone => absurd hnone hanswered)
      fun _ => rfl).turn _

theorem read (horderly : s.Orderly) (name : String) : (s.read name).Solo := by
  unfold Seam.read
  split
  case h_2 => exact h
  case h_1 frame rest hidle hlink =>
    dsimp only
    split
    case h_1 k answer => exact h.reply horderly hlink
    case h_2 events k _ => exact (h.pop hlink fun _ => by simp).aside rfl rfl rfl rfl
    case h_3 events k _ => exact (h.pop hlink fun _ => by simp).aside rfl rfl rfl rfl
    case h_4 offset payload k hsink => exact h.deliver horderly name hsink hlink
    case h_5 k _ =>
      have hpopped := h.pop hlink fun _ => by simp
      exact { hpopped with }
    case h_6 other _ _ hnoReply _ =>
      exact h.pop hlink fun answer hreply => hnoReply 0 answer hreply

theorem step (hsound : s.Sound) (horderly : s.Orderly) (limit : Nat) (name : String)
    (hok : s.Alone op) : (s.step limit name op).Solo := by
  cases op with
  | append chunk sniffed blocks =>
    simp only [Seam.step, Seam.append]
    split <;> exact h.superd rfl id
  | fanOut =>
    simp only [Seam.step, Seam.fanOut]
    split
    case h_2 => exact h
    case h_1 =>
      split
      case isFalse => exact h.superd rfl id
      case isTrue hregistered => exact h.superd rfl fun hled => hled.append (.inl hregistered)
  | finishPump =>
    simp only [Seam.step, Seam.finishPump]
    split <;> exact h.superd rfl id
  | notify =>
    simp only [Seam.step, Seam.notify]
    split
    case h_2 => exact h
    case h_1 =>
      split
      case isFalse => exact h
      case isTrue => exact h.superd rfl fun hled => hled.append (.inr rfl)
  | serve =>
    simp only [Seam.step, Seam.serve]
    split
    case h_1 => exact h.superd rfl Led.drop
    case h_2 => exact h.superd rfl id
    case h_3 => exact h
  | readEnded =>
    simp only [Seam.step, Seam.readEnded]
    split <;> exact h.superd rfl id
  | ship sniffed =>
    simp only [Seam.step, Seam.ship]
    split
    case h_2 => exact h
    case h_1 k asked r ended hheld =>
      have hholder : k ∈ s.pending := by simp [pending, hheld, Wire.holder]
      obtain rfl := h.eq_zero (horderly.asked k hholder).1
      exact h.superd rfl fun hled => hled.ship _ _
  | start fromOffset => exact h.start hok fromOffset
  | stop k => exact hok.elim
  | read => exact h.read horderly name
  | hand =>
    simp only [Seam.step, Seam.hand]
    split
    case h_1 k handover _ =>
      have hhanded := h.aside (k := k) (f := fun t => { t with calls := t.calls ++ handover.calls })
        rfl rfl rfl rfl
      exact hhanded.turn _
    case h_2 => exact h
  | readerFinish =>
    simp only [Seam.step, Seam.readerFinish]
    split
    case h_1 k _ =>
      have hlatched := h.aside (k := k)
        (f := fun t => { t with guarded := (s.streams k).guarded.finish.2 }) rfl rfl rfl rfl
      exact hlatched.turn _
    case h_2 => exact h
  | readerEnd =>
    simp only [Seam.step, Seam.readerEnd]
    split
    case h_1 k _ =>
      have htold := h.aside (k := k) (f := fun t => { t with calls := t.calls ++ [.ended] })
        rfl rfl rfl rfl
      exact htold.turn _
    case h_2 => exact h
  | accept k =>
    simp only [Seam.step, Seam.accept]
    split
    case h_2 => exact h
    case h_1 answer hreplied =>
      have hanswer := (hsound.streams k).acceptor answer hreplied
      exact h.modify rfl (fun hnone => absurd (hanswer.symm.trans hnone) (by simp)) fun _ => rfl
  | acceptFinish k =>
    simp only [Seam.step, Seam.acceptFinish]
    split
    case h_2 => exact h
    case h_1 => exact h.aside rfl rfl rfl rfl
  | acceptEnd k =>
    simp only [Seam.step, Seam.acceptEnd]
    split
    case h_2 => exact h
    case h_1 => exact h.aside rfl rfl rfl rfl

theorem inStep (horderly : s.Orderly) (hok : s.Alone op) : s.InStep op := by
  cases op with
  | stop k => exact hok.elim
  | read =>
    intro hidle frame hframe
    have hfirst := hok hidle frame hframe
    obtain ⟨rest, hlink⟩ : ∃ rest, s.link = frame :: rest := by
      cases hlink : s.link with
      | nil => rw [hlink] at hframe; contradiction
      | cons first rest =>
        grind
    cases frame with
    | reply k answer =>
      obtain ⟨hlt, _, hnone⟩ := horderly.asked k (by simp [pending, hlink, replies])
      obtain rfl := h.eq_zero hlt
      intro start horigin
      rw [(h.fresh hnone).2.1] at horigin
      contradiction
    | output offset payload =>
      intro k hk _
      obtain rfl := h.eq_zero (horderly.sink k hk)
      refine ⟨fun hnone => ?_, hfirst⟩
      have hled := (h.fresh hnone).2.2
      rw [hlink] at hled
      exact absurd (hled.pop fun _ => by simp).1 (by simp [outputs])
    | exited => exact hfirst
    | sniff events => exact trivial
    | blocks events => exact trivial
  | _ => exact trivial

end

end Solo

/-- **A pane subscription delivers each byte once.** The one stream on a pane
is handed the pane's output from the start it was answered with, in order,
without a repetition or a gap, and all of it once nothing is on its way; and
an answer that says the pane has ended has its final head. -/
theorem delivers_once (capacity limit : Nat) (name : String) {ops : List (SeamOp σ β)}
    (hops : Meets (step limit name) Alone (Seam.new capacity) ops) :
    let s := run (step limit name) (Seam.new capacity) ops
    ∀ answer, (s.streams 0).position = some answer →
      payloads (s.streams 0).calls <+: s.produced.drop answer.start ∧
      (s.Settled → payloads (s.streams 0).calls = s.produced.drop answer.start) ∧
      (answer.ended = true → s.pumpEnded = true ∧ answer.head = s.produced.length) := by
  intro s answer hanswer
  have hinit : (Seam.new capacity : Seam σ β).Solo ∧ (Seam.new capacity : Seam σ β).Sound ∧
      (Seam.new capacity : Seam σ β).Orderly :=
    ⟨solo_new capacity, sound_new capacity, orderly_new capacity⟩
  have hnext (s : Seam σ β) (op : SeamOp σ β) (hok : s.Alone op)
      (hs : s.Solo ∧ s.Sound ∧ s.Orderly) : s.InStep op ∧ (s.step limit name op).Solo ∧
      (s.step limit name op).Sound ∧ (s.step limit name op).Orderly :=
    ⟨hs.1.inStep hs.2.2 hok, hs.1.step hs.2.1 hs.2.2 limit name hok, hs.2.1.step limit name op,
      hs.2.2.step limit name op⟩
  have hsolo : s.Solo := (hops.invariant _ (fun s op hok hs => (hnext s op hok hs).2) hinit).1
  have hclean := clean_run capacity limit name (hops.weaken _ hnext hinit)
  have hsound := sound_run capacity limit name ops
  obtain ⟨hleading, hall⟩ := hclean.delivered hsound hanswer
  refine ⟨hleading, fun hsettled => hall hsettled ?_ hsolo.live,
    ((hsound.streams 0).position answer hanswer).final⟩
  have hstarted : s.started ≠ 0 := fun hzero => by
    rw [hsolo.asked hzero] at hanswer
    contradiction
  have hle := hsolo.started
  exact (show 0 + 1 = s.started by omega)

/-- A chunk that is in the backlog and sent live as well is cut. -/
theorem delivers_once_overlap :
    let ops : List (SeamOp Unit Unit) := [.append [0x61, 0x62] [] [], .start 0, .serve, .readEnded,
      .ship [], .fanOut, .read, .read, .hand, .read, .hand, .accept 0]
    payloads ((run (step 64 "p") (Seam.new 8) ops).streams 0).calls = [0x61, 0x62] := by
  intro ops
  have hops : Meets (step 64 "p") Alone (Seam.new 8) ops := by decide +kernel
  have hsettled : (run (step 64 "p") (Seam.new 8) ops).Settled :=
    ⟨by decide +kernel, by decide +kernel, by decide +kernel, by decide +kernel, by rfl⟩
  exact ((delivers_once 8 64 "p" hops) ⟨0, 2, false, false⟩ (by decide +kernel)).2.1 hsettled

/-- The snapshot took the chunk and the backlog from its head is empty; the
chunk is fanned out then, and reaches a stream that has not recorded its
answer. -/
theorem sent_before_start :
    let ops : List (SeamOp Unit Unit) := [.append [0x61, 0x62] [] [], .start (2 ^ 64 - 1), .serve,
      .readEnded, .ship [], .fanOut, .read, .read, .hand, .accept 0]
    let s := run (step 64 "p") (Seam.new 8) ops
    ¬(∀ answer, (s.streams 0).position = some answer →
      payloads (s.streams 0).calls <+: s.produced.drop answer.start) := by
  intro ops s h
  have hleading := h ⟨2, 2, false, false⟩ (by decide +kernel)
  exact absurd hleading (by decide)

end Seam

end SlopDesk.HostPane
