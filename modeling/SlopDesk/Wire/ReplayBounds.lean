/-
SlopDesk.Wire.ReplayBounds — how large the ring can get.

§1 says in list terms what an eviction and an ack leave in the ring: the
survivors, with the re-opener the cut calls for in front. That re-opener is
prepended after the fit was decided, and a fold adoption decides no fit at
all, so the ring's cap does not hold of every run; §2 gives the exact
condition on the steps of one under which it does.
-/
import SlopDesk.Wire.ReplayOrder

namespace SlopDesk.Wire

open SlopDesk.Base
open SlopDesk.AltScreen
open SlopDesk.Mux

/-! ## §1 What an ack leaves in the ring -/

/-- A ring with a re-opener, if there is one, in front of its head. -/
def reopened : Option (List UInt8) → List RingEntry → List RingEntry
  | some reopen, head :: rest => { head with bytes := reopen ++ head.bytes } :: rest
  | _, ring => ring

@[simp] theorem reopened_none (ring : List RingEntry) : reopened none ring = ring := by
  cases ring <;> rfl

@[simp] theorem reopened_nil (reopen : Option (List UInt8)) : reopened reopen [] = [] := by
  cases reopen <;> rfl

/-- The bytes in front of the survivors. -/
def droppedBy (cap : Nat) (ring : List RingEntry) : List UInt8 :=
  (ringContent ring).take ((ringContent ring).length - (ringContent (survivors cap ring)).length)

/-- The re-opener that trimming a ring to a cap calls for. -/
def cutReopener (cap : Nat) (ring : List RingEntry) : Option (List UInt8) :=
  reopenSequence (droppedBy cap ring) (keptHead (survivors cap ring))

theorem droppedBy_append (cap : Nat) (ring : List RingEntry) :
    droppedBy cap ring ++ ringContent (survivors cap ring) = ringContent ring := by
  have hsuffix : ringContent (survivors cap ring) <:+ ringContent ring := by
    obtain ⟨older, holder⟩ := newestFitting_suffix cap ring
    have hcontent := congrArg ringContent holder
    rw [ringContent_append] at hcontent
    unfold survivors
    rcases lineAligned_cases (newestFitting cap ring) with heq | ⟨head, rest, newline, hring, _, heq⟩
    · rw [heq]
      exact ⟨_, hcontent⟩
    · rw [hring, ringContent_cons] at hcontent
      refine ⟨ringContent older ++ head.bytes.take (newline + 1), ?_⟩
      rw [heq, ringContent_cons, List.append_assoc, ← List.append_assoc (head.bytes.take _),
        List.take_append_drop]
      exact hcontent
  obtain ⟨front, hfront⟩ := hsuffix
  unfold droppedBy
  rw [← hfront, List.length_append, Nat.add_sub_cancel, List.take_left]

/-- A ring trimmed to a cap: itself if it fits, and else its survivors with
the re-opener in front. -/
def trimmed (cap : Nat) (ring : List RingEntry) : List RingEntry :=
  if (ringContent ring).length ≤ cap then ring
  else reopened (cutReopener cap ring) (survivors cap ring)

namespace ReplayBuffer

variable {b : ReplayBuffer}

theorem attach_ring (b : ReplayBuffer) :
    b.attachPendingReopen.scrollbackRing = reopened b.pendingAltReopen b.scrollbackRing := by
  rcases attach_cases b with ⟨heq, hnil | hnone⟩ | ⟨head, rest, reopen, hring, hpending, heq⟩
  · rw [heq, hnil, reopened_nil]
  · rw [heq, hnone, reopened_none]
  · rw [heq, hring, hpending]
    rfl

theorem cutReopen_eq (h : b.Counted) : b.cutReopen = cutReopener b.scrollbackBytesCap b.scrollbackRing := by
  have hsplit := (dropped_evictionCut h).trans
    (droppedBy_append b.scrollbackBytesCap b.scrollbackRing).symm
  unfold cutReopen cutReopener
  rw [(cuts_evictionCut h).2, List.append_cancel_right hsplit]

theorem evict_ring (h : b.Counted) :
    b.evictScrollbackToFit.scrollbackRing = trimmed b.scrollbackBytesCap b.scrollbackRing := by
  have hring := (cuts_evictionCut h).2
  have hreopen := cutReopen_eq h
  have hcounted : b.scrollbackBytes = (ringContent b.scrollbackRing).length := h
  unfold trimmed
  rcases evict_cases b with ⟨hidle, heq⟩ | ⟨hevicts, hnone, heq⟩ | ⟨reopen, hevicts, hsome, heq⟩
  · rw [heq]
    simp only [evicts, Bool.and_eq_false_iff, decide_eq_false_iff_not, Bool.not_eq_false',
      List.isEmpty_iff] at hidle
    rcases hidle with hfits | hempty
    · rw [if_pos (by omega)]
    · rw [hempty, if_pos (by simp)]
  · simp only [evicts, Bool.and_eq_true, decide_eq_true_eq] at hevicts
    rw [heq, if_neg (by omega), ← hreopen, hnone, reopened_none]
    exact hring
  · simp only [evicts, Bool.and_eq_true, decide_eq_true_eq] at hevicts
    rw [heq, if_neg (by omega), ← hreopen, hsome, attach_ring]
    show reopened (some reopen) b.evictionCut.ring = _
    rw [hring]

/-- The tail entries an ack releases. -/
def released (b : ReplayBuffer) (upTo : Int) : List TailEntry :=
  if min upTo b.highestSeq ≤ b.ackedSeq then []
  else b.entries.takeWhile fun e => e.seq ≤ min upTo b.highestSeq

/-- The ring with released entries behind it: one that was empty opens with
the carried re-opener. -/
def offered (b : ReplayBuffer) (released : List TailEntry) : List RingEntry :=
  let moved := b.scrollbackRing ++ released.map fun e => ⟨e.seq, e.bytes⟩
  if b.scrollbackRing.isEmpty then reopened b.pendingAltReopen moved else moved

theorem moveToRing_ring (b : ReplayBuffer) (released : List TailEntry) :
    (b.moveToRing released).scrollbackRing = b.offered released := by
  unfold moveToRing offered
  cases b.scrollbackRing.isEmpty with
  | true => exact attach_ring (b.joined released)
  | false => rfl

theorem releasePrefix_ring (h : b.Counted) (n : Nat) : (b.releasePrefix n).scrollbackRing
      = if b.scrollbackBytesCap = 0 then b.scrollbackRing
        else trimmed b.scrollbackBytesCap (b.offered (b.entries.take n)) := by
  have hdrained : (b.drainTail n).Counted := h
  show ((b.drainTail n).retire (b.entries.take n)).scrollbackRing = _
  rcases retire_cases (b.drainTail n) (b.entries.take n) with ⟨hcap, heq⟩ | ⟨hcap, heq⟩
  · have hzero : b.scrollbackBytesCap = 0 := hcap
    rw [heq, if_pos hzero]
    rfl
  · have hpos : 0 < b.scrollbackBytesCap := hcap
    rw [heq, if_neg (by omega), evict_ring (hdrained.moveToRing _), moveToRing_ring,
      (ringOnly_moveToRing _ _).scrollbackBytesCap]
    rfl

/-- What `ack` does, by what it releases: nothing but move the acked number,
or release that prefix of the tail. -/
theorem ack_released (b : ReplayBuffer) (upTo : Int) :
    (b.released upTo = [] ∧ ∃ seq, b.ack upTo = b.advance seq) ∨
    (b.released upTo ≠ [] ∧
      b.entries.take (b.released upTo).length = b.released upTo ∧
      b.ack upTo = (b.advance (min upTo b.highestSeq)).releasePrefix (b.released upTo).length) := by
  unfold ack released partitionPoint
  by_cases hstale : min upTo b.highestSeq ≤ b.ackedSeq
  case pos =>
    rw [if_pos hstale, if_pos hstale]
    exact .inl ⟨rfl, b.ackedSeq, rfl⟩
  case neg =>
    rw [if_neg hstale, if_neg hstale]
    by_cases hnone : b.entries.takeWhile (fun e => e.seq ≤ min upTo b.highestSeq) = []
    case pos =>
      grind
    case neg =>
      rw [if_neg (mt List.eq_nil_of_length_eq_zero hnone)]
      exact .inr ⟨hnone, take_takeWhile_length _ _, rfl⟩

/-- An ack leaves the ring as it is when it releases nothing or there is no
ring to keep, and else trims what it is offered. -/
theorem ack_ring (h : b.Counted) (upTo : Int) : (b.ack upTo).scrollbackRing
      = if b.scrollbackBytesCap = 0 ∨ b.released upTo = [] then b.scrollbackRing
        else trimmed b.scrollbackBytesCap (b.offered (b.released upTo)) := by
  have hadvanced : (b.advance (min upTo b.highestSeq)).Counted := h
  rcases ack_released b upTo with ⟨hnone, seq, heq⟩ | ⟨hsome, htake, heq⟩
  · rw [heq, if_pos (.inr hnone)]
    rfl
  · rw [heq, releasePrefix_ring hadvanced]
    show (if b.scrollbackBytesCap = 0 then _ else trimmed _ (b.offered (b.entries.take _))) = _
    rw [htake]
    simp only [hsome, or_false]
    rfl

/-- A property of the ring is kept by an ack exactly when, should it trim,
the trimmed ring has it. -/
theorem ack_ring_iff (h : b.Counted) (upTo : Int) {P : List RingEntry → Prop}
    {fits : Prop} (hring : P b.scrollbackRing)
    (htrim : P (trimmed b.scrollbackBytesCap (b.offered (b.released upTo))) ↔ fits) :
    P (b.ack upTo).scrollbackRing
      ↔ (b.scrollbackBytesCap ≠ 0 → b.released upTo ≠ [] → fits) := by
  rw [ack_ring h]
  by_cases hidle : b.scrollbackBytesCap = 0 ∨ b.released upTo = []
  case pos =>
    grind
  case neg =>
    grind

end ReplayBuffer

/-! ## §2 The cap of the ring -/

theorem length_reopened {reopen : Option (List UInt8)} {ring : List RingEntry} (h : ring ≠ []) :
    (ringContent (reopened reopen ring)).length
      = (reopen.getD []).length + (ringContent ring).length := by
  cases ring with
  | nil => exact absurd rfl h
  | cons head rest =>
    cases reopen with
    | none => simp
    | some reopen =>
      simp only [reopened, ringContent_cons, List.length_append, Option.getD_some]
      omega

/-- What survives a trim leaves room for the re-opener its cut calls for. -/
def RepairFits (cap : Nat) (ring : List RingEntry) : Prop :=
  cap < (ringContent ring).length → survivors cap ring ≠ [] →
    ((cutReopener cap ring).getD []).length + (ringContent (survivors cap ring)).length ≤ cap

theorem length_trimmed_iff (cap : Nat) (ring : List RingEntry) :
    (ringContent (trimmed cap ring)).length ≤ cap ↔ RepairFits cap ring := by
  unfold trimmed RepairFits
  by_cases hfits : (ringContent ring).length ≤ cap
  case pos =>
    grind
  case neg =>
    rw [if_neg hfits]
    by_cases hnil : survivors cap ring = []
    case pos =>
      simp [hnil, reopened_nil]
    case neg =>
      grind [length_reopened]

namespace ReplaySession

open ReplayBuffer

variable (mux : MuxFlowControl)

/-- An ack leaves room for its repair, and an adopted fold fits the cap. -/
def FitsScrollback (s : ReplaySession) : ReplayOp → Prop
  | .ack upTo => s.buffer.scrollbackBytesCap ≠ 0 → s.buffer.released upTo ≠ [] →
      RepairFits s.buffer.scrollbackBytesCap (s.buffer.offered (s.buffer.released upTo))
  | .adoptFold index rendered => ∀ source, s.captured[index]? = some source →
      source.generation = s.buffer.ringGeneration →
      rendered.length ≤ s.buffer.scrollbackBytesCap
  | _ => True

/-- The ring is within its cap. -/
def ScrollbackBounded (s : ReplaySession) : Prop :=
  (ringContent s.buffer.scrollbackRing).length ≤ s.buffer.scrollbackBytesCap

theorem scrollbackBytesCap_ack {b : ReplayBuffer} (h : b.Counted) (upTo : Int) :
    (b.ack upTo).scrollbackBytesCap = b.scrollbackBytesCap := by
  rcases ack_cases h upTo with ⟨_, heq⟩ | ⟨_, hreleases⟩
  · rw [heq]
  · rw [hreleases.scrollbackBytesCap]
    rfl

/-- The ring a fold adoption leaves: its own, or the rendered bytes on the
captured numbers. -/
theorem adoptFold_ring (s : ReplaySession) (index : Nat) (rendered : List UInt8) :
    ((step mux s (.adoptFold index rendered)).buffer.scrollbackRing = s.buffer.scrollbackRing ∧
      ∀ source, s.captured[index]? = some source →
        source.generation ≠ s.buffer.ringGeneration) ∨
    ∃ source, s.captured[index]? = some source ∧
      source.generation = s.buffer.ringGeneration ∧
      (step mux s (.adoptFold index rendered)).buffer.scrollbackRing
        = (rechunk mux rendered source.seqs true).map fun m => ⟨m.seq, m.bytes⟩ := by
  rcases adoptFold_cases mux s index rendered with ⟨hnone, heq⟩ | ⟨source, hget, heq⟩
  · rw [heq]
    exact .inl ⟨rfl, by simp [hnone]⟩
  · rcases adoptFolded_cases mux s.buffer rendered source with ⟨hstale, hsame⟩ | ⟨hfresh, hnew⟩
    · grind
    · grind

/-- A property of the ring is kept by a fold adoption exactly when, should
the capture be current, the folded ring has it. -/
theorem adoptFold_ring_iff (s : ReplaySession) (index : Nat)
    (rendered : List UInt8) {P : List RingEntry → Prop} {fits : RingFoldSource → Prop}
    (hring : P s.buffer.scrollbackRing)
    (hfold : ∀ source ∈ s.captured,
      P ((rechunk mux rendered source.seqs true).map fun m => ⟨m.seq, m.bytes⟩) ↔ fits source) :
    P (step mux s (.adoptFold index rendered)).buffer.scrollbackRing
      ↔ ∀ source, s.captured[index]? = some source →
        source.generation = s.buffer.ringGeneration → fits source := by
  rcases adoptFold_ring mux s index rendered with ⟨hsame, hstale⟩ | ⟨source, hget, hfresh, hnew⟩
  · grind
  · grind

theorem scrollbackBytesCap_adoptFold (s : ReplaySession) (index : Nat)
    (rendered : List UInt8) : (step mux s (.adoptFold index rendered)).buffer.scrollbackBytesCap
      = s.buffer.scrollbackBytesCap := by
  rcases adoptFold_cases mux s index rendered with ⟨_, heq⟩ | ⟨source, _, heq⟩
  · rw [heq]
  · rw [heq]
    exact (ringOnly_adoptFolded mux s.buffer rendered source).scrollbackBytesCap

theorem scrollbackBounded_step {s : ReplaySession} (op : ReplayOp)
    (h : s.NeverDrops) (hbounded : s.ScrollbackBounded) :
    (step mux s op).ScrollbackBounded ↔ s.FitsScrollback op := by
  cases op with
  | ack upTo =>
    show (ringContent (s.buffer.ack upTo).scrollbackRing).length
      ≤ (s.buffer.ack upTo).scrollbackBytesCap ↔ _
    rw [scrollbackBytesCap_ack h.scrollbackBytes]
    exact ack_ring_iff h.scrollbackBytes upTo
      (P := fun ring => (ringContent ring).length ≤ s.buffer.scrollbackBytesCap) hbounded
      (length_trimmed_iff _ _)
  | adoptFold index rendered =>
    unfold ScrollbackBounded
    rw [scrollbackBytesCap_adoptFold]
    refine adoptFold_ring_iff mux s index rendered
      (P := fun ring => (ringContent ring).length ≤ s.buffer.scrollbackBytesCap) hbounded ?_
    intro source hsource
    rw [ringContent_map_messages,
      messageContent_rechunk mux rendered true (h.captured source hsource)]
  | append | setClientOnline | setPendingAltReopen | captureFold =>
    exact ⟨fun _ => trivial, fun _ => hbounded⟩

/-- From a fresh buffer, the ring stays within its cap throughout exactly
when every repair has room and every adopted fold fits. -/
theorem scrollback_bounded_iff (mux : MuxFlowControl) (maxBackup offlineGate scrollback : Nat)
    (distiller : Option (List UInt8 → List UInt8)) (ops : List ReplayOp) :
    let fresh := start { withCaps maxBackup offlineGate scrollback with
      scrollbackDistiller := distiller }
    Throughout (step mux) ScrollbackBounded fresh ops
      ↔ Meets (step mux) FitsScrollback fresh ops := by
  intro fresh
  have hfresh : fresh.ScrollbackBounded := Nat.zero_le _
  have hinv : ∀ s op, True → NeverDrops s → (step mux s op).NeverDrops :=
    fun _ op _ => neverDrops_step op
  have hstep : ∀ s op, True → NeverDrops s → s.ScrollbackBounded →
      ((step mux s op).ScrollbackBounded ↔ s.FitsScrollback op) :=
    fun _ op _ hs => scrollbackBounded_step mux op hs
  exact throughout_iff_meets hinv hstep
    (neverDrops_start maxBackup offlineGate scrollback distiller) hfresh fun _ _ => trivial

/-- A cap of 12: a fold of 13 bytes is adopted, and a repair puts 8 bytes in
front of 5 that were kept because they fit. -/
theorem scrollback_not_bounded :
    let mux : MuxFlowControl := ⟨none, none⟩
    let fresh := start (withCaps 100 100 12)
    let fold := List.replicate 13 (0x61 : UInt8)
    let opener := [0x1B, 0x5B, 0x3F, 0x31, 0x30, 0x34, 0x39, 0x68, 0x78, 0x0A]
    let frame := [0x69, 0x6E, 0x2D, 0x61, 0x6C, 0x74, 0x0A, 0x72, 0x65, 0x73, 0x74, 0x73]
    ¬ (run (step mux) fresh
        [.append [0x61], .ack 1, .captureFold, .adoptFold 0 fold]).ScrollbackBounded ∧
    ¬ (run (step mux) fresh
        [.append opener, .append frame, .ack 1, .ack 2]).ScrollbackBounded := by
  simp only [ScrollbackBounded]
  decide +kernel

end ReplaySession

end SlopDesk.Wire
