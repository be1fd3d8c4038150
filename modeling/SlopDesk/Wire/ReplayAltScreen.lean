/-
SlopDesk.Wire.ReplayAltScreen — the alternate screen survives eviction.

What a buffer holds is the carried re-opener, then its ring, then its tail;
a re-opener is carried only while the ring is empty. §1 follows those bytes
through the ring operations: moving entries into the ring keeps them, and a
trim drops a prefix and puts the re-opener of the cut in its place. §2 is
the invariant over runs of appends and acks whose cuts are clean: a terminal
fed what the buffer holds is where one fed the whole stream is.
-/
import SlopDesk.AltScreen.ReopenTheorems
import SlopDesk.Wire.ReplayBounds

namespace SlopDesk.Wire

open SlopDesk.Base
open SlopDesk.AltScreen
open SlopDesk.Mux

/-! ## §1 What a buffer holds -/

namespace ReplayBuffer

variable {b : ReplayBuffer}

/-- The carried re-opener and the ring. -/
def heldRing (b : ReplayBuffer) : List UInt8 :=
  b.pendingAltReopen.getD [] ++ ringContent b.scrollbackRing

/-- The carried re-opener, the ring and the tail. -/
def held (b : ReplayBuffer) : List UInt8 := b.heldRing ++ tailContent b.entries

/-- A re-opener is carried only while the ring is empty. -/
def CarriesAlone (b : ReplayBuffer) : Prop := b.pendingAltReopen ≠ none → b.scrollbackRing = []

theorem heldRing_attach (b : ReplayBuffer) : b.attachPendingReopen.heldRing = b.heldRing := by
  rcases attach_cases b with ⟨heq, _⟩ | ⟨head, rest, reopen, hring, hpending, heq⟩
  · rw [heq]
  · unfold heldRing
    rw [heq, hring, hpending]
    simp

theorem carriesAlone_attach (b : ReplayBuffer) : b.attachPendingReopen.CarriesAlone := by
  intro hsome
  rcases attach_cases b with ⟨heq, hnil | hnone⟩ | ⟨head, rest, reopen, _, _, heq⟩
  · rw [heq]; exact hnil
  · rw [heq] at hsome
    exact absurd hnone hsome
  · rw [heq] at hsome
    exact absurd rfl hsome

theorem CarriesAlone.pending (h : b.CarriesAlone) (hring : b.scrollbackRing ≠ []) :
    b.pendingAltReopen = none := by
  cases hpending : b.pendingAltReopen with
  | none => rfl
  | some reopen => exact absurd (h (by simp [hpending])) hring

/-- The bytes a trim to a cap holds. -/
def trimmedBytes (cap : Nat) (ring : List RingEntry) : List UInt8 :=
  if (ringContent ring).length ≤ cap then ringContent ring
  else (cutReopener cap ring).getD [] ++ ringContent (survivors cap ring)

/-- An eviction with nothing carried holds what the trim does: an empty ring
carries the re-opener. -/
theorem heldRing_evict (h : b.Counted) (hnone : b.pendingAltReopen = none) :
    b.evictScrollbackToFit.heldRing = trimmedBytes b.scrollbackBytesCap b.scrollbackRing ∧
      b.evictScrollbackToFit.CarriesAlone := by
  have hring := (cuts_evictionCut h).2
  have hreopen := cutReopen_eq h
  have hcounted : b.scrollbackBytes = (ringContent b.scrollbackRing).length := h
  unfold trimmedBytes
  rcases evict_cases b with ⟨hidle, heq⟩ | ⟨hevicts, hcut, heq⟩ | ⟨reopen, hevicts, hcut, heq⟩
  · have hfits : (ringContent b.scrollbackRing).length ≤ b.scrollbackBytesCap := by
      simp only [evicts, Bool.and_eq_false_iff, decide_eq_false_iff_not, Bool.not_eq_false',
        List.isEmpty_iff] at hidle
      rcases hidle with hfits | hempty
      · omega
      · simp [hempty]
    rw [heq, if_pos hfits]
    refine ⟨by simp [heldRing, hnone], fun hsome => absurd hnone hsome⟩
  · simp only [evicts, Bool.and_eq_true, decide_eq_true_eq] at hevicts
    rw [heq, if_neg (by omega), ← hreopen, hcut, ← hring]
    refine ⟨?_, fun hsome => absurd hnone hsome⟩
    show b.pendingAltReopen.getD [] ++ _ = _
    rw [hnone]
    rfl
  · simp only [evicts, Bool.and_eq_true, decide_eq_true_eq] at hevicts
    rw [heq, if_neg (by omega), ← hreopen, hcut, ← hring, heldRing_attach]
    exact ⟨rfl, carriesAlone_attach _⟩

theorem heldRing_moveToRing (h : b.CarriesAlone) {released : List TailEntry} (hne : released ≠ []) :
    (b.moveToRing released).pendingAltReopen = none ∧
      ringContent (b.moveToRing released).scrollbackRing
        = b.heldRing ++ tailContent released := by
  have hring : (b.moveToRing released).scrollbackRing ≠ [] := by
    have hseqs := seqs_moveToRing b released
    intro hnil
    rw [hnil, List.map_nil, eq_comm, List.append_eq_nil_iff, List.map_eq_nil_iff] at hseqs
    exact hne (List.map_eq_nil_iff.mp hseqs.2)
  have hjoined : (b.joined released).heldRing = b.heldRing ++ tailContent released := by
    simp [heldRing, joined, ringContent_map_tail]
  have hmoved : (b.moveToRing released).heldRing = b.heldRing ++ tailContent released ∧
      (b.moveToRing released).CarriesAlone := by
    rcases moveToRing_cases b released with ⟨_, heq⟩ | ⟨hold, heq⟩
    · rw [heq, heldRing_attach, hjoined]
      exact ⟨rfl, carriesAlone_attach _⟩
    · rw [heq, hjoined]
      exact ⟨rfl, fun hsome => absurd (h.pending hold) hsome⟩
  have hnone := hmoved.2.pending hring
  rw [← hmoved.1]
  simp [heldRing, hnone]

theorem heldRing_retire (h : b.Counted) (hcap : 0 < b.scrollbackBytesCap)
    (halone : b.CarriesAlone) {released : List TailEntry} (hne : released ≠ []) :
    (b.retire released).CarriesAlone ∧
      ringContent (b.offered released) = b.heldRing ++ tailContent released ∧
      (b.retire released).heldRing = trimmedBytes b.scrollbackBytesCap (b.offered released) := by
  obtain ⟨hnone, hring⟩ := heldRing_moveToRing halone hne
  obtain ⟨hheld, hevict⟩ := heldRing_evict (h.moveToRing released) hnone
  rw [moveToRing_ring] at hring hheld
  rw [(ringOnly_moveToRing b released).scrollbackBytesCap] at hheld
  rcases retire_cases b released with ⟨hzero, _⟩ | ⟨_, heq⟩
  · omega
  · rw [heq]
    exact ⟨hevict, hring, hheld⟩

/-- What an ack into a ring does to the bytes held: it trims those it offers
the ring. -/
theorem held_ack (h : b.Counted) (hcap : 0 < b.scrollbackBytesCap) (halone : b.CarriesAlone) (upTo : Int) :
    (b.ack upTo).CarriesAlone ∧
    ((b.released upTo = [] ∧ (b.ack upTo).held = b.held) ∨
      (b.released upTo ≠ [] ∧ ∃ after,
        b.held = ringContent (b.offered (b.released upTo)) ++ after ∧
        (b.ack upTo).held
          = trimmedBytes b.scrollbackBytesCap (b.offered (b.released upTo)) ++ after)) := by
  rcases ack_released b upTo with ⟨hnone, seq, heq⟩ | ⟨hsome, htake, heq⟩
  · rw [heq]
    exact ⟨halone, .inl ⟨hnone, rfl⟩⟩
  · let n := (b.released upTo).length
    let drained := (b.advance (min upTo b.highestSeq)).drainTail n
    have hdrained : drained.Counted := h
    obtain ⟨hretired, hoffered, hheld⟩ := heldRing_retire hdrained hcap halone hsome
    have hsplit : tailContent b.entries
        = tailContent (b.released upTo) ++ tailContent (b.entries.drop n) := by
      have hentries := List.take_append_drop n b.entries
      rw [show b.entries.take n = b.released upTo from htake] at hentries
      rw [← tailContent_append, hentries]
    rw [heq]
    refine ⟨?_, .inr ⟨hsome, tailContent (b.entries.drop n), ?_, ?_⟩⟩
    · show (drained.retire (b.entries.take n)).CarriesAlone
      rw [htake]
      exact hretired
    · show b.heldRing ++ tailContent b.entries = ringContent (drained.offered _) ++ _
      rw [hoffered, hsplit, ← List.append_assoc]
      rfl
    · show (drained.retire (b.entries.take n)).heldRing
        ++ tailContent (drained.retire (b.entries.take n)).entries = _
      rw [htake, hheld, (ringOnly_retire drained _).entries]
      rfl

end ReplayBuffer

/-! ## §2 Clean runs -/

/-- Trimming a ring cuts it cleanly, if it cuts it at all. -/
def CleanTrim (cap : Nat) (ring : List RingEntry) : Prop :=
  cap < (ringContent ring).length → CleanCut (droppedBy cap ring) (keptHead (survivors cap ring))

theorem keptHead_append (ring : List RingEntry) :
    keptHead ring ++ ringContent ring.tail = ringContent ring := by
  cases ring <;> rfl

theorem read_trimmedBytes {cap : Nat} {ring : List RingEntry} {after : List UInt8}
    (hclean : CleanTrim cap ring) (hregular : Screen.init.Regular (ringContent ring ++ after)) :
    Screen.init.Regular (ReplayBuffer.trimmedBytes cap ring ++ after) ∧
      Screen.init.read (ReplayBuffer.trimmedBytes cap ring ++ after)
        = Screen.init.read (ringContent ring ++ after) := by
  unfold ReplayBuffer.trimmedBytes
  by_cases hfits : (ringContent ring).length ≤ cap
  case pos =>
    rw [if_pos hfits]
    exact ⟨hregular, rfl⟩
  case neg =>
    have hcut : ringContent ring ++ after = droppedBy cap ring ++
        (keptHead (survivors cap ring) ++ (ringContent (survivors cap ring).tail ++ after)) := by
      rw [← List.append_assoc (keptHead _), keptHead_append, ← List.append_assoc, droppedBy_append]
    have hkept : (cutReopener cap ring).getD [] ++ ringContent (survivors cap ring) ++ after
        = (cutReopener cap ring).getD [] ++
          (keptHead (survivors cap ring) ++ (ringContent (survivors cap ring).tail ++ after)) := by
      rw [← List.append_assoc (keptHead _), keptHead_append, List.append_assoc]
    rw [if_neg hfits, hkept, hcut]
    rw [hcut] at hregular
    exact reopen_sound hregular (hclean (by omega))

namespace ReplaySession

open ReplayBuffer

variable {mux : MuxFlowControl} {s : ReplaySession}

/-- An append, or an ack whose eviction, if it makes one, cuts the ring
cleanly. -/
def CleanStep (s : ReplaySession) : ReplayOp → Prop
  | .append _ => True
  | .ack upTo => s.buffer.released upTo ≠ [] →
      CleanTrim s.buffer.scrollbackBytesCap (s.buffer.offered (s.buffer.released upTo))
  | _ => False

instance (cap : Nat) (ring : List RingEntry) : Decidable (CleanTrim cap ring) :=
  inferInstanceAs (Decidable (_ → _))

instance (s : ReplaySession) (op : ReplayOp) : Decidable (s.CleanStep op) :=
  match op with
  | .append _ => .isTrue trivial
  | .ack _ => inferInstanceAs (Decidable (_ → _))
  | .setClientOnline _ | .setPendingAltReopen _ | .captureFold | .adoptFold _ _ => .isFalse not_false

/-- Every byte ever appended. -/
def stream (s : ReplaySession) : List UInt8 := s.appended.flatten

/-- While the output is well formed, a terminal that reads what the buffer
holds is where one that reads the whole stream is. -/
structure KeepsScreen (s : ReplaySession) : Prop where
  neverDrops : s.NeverDrops
  cap_pos : 0 < s.buffer.scrollbackBytesCap
  carriesAlone : s.buffer.CarriesAlone
  screen : Screen.init.Regular s.stream → Screen.init.Regular s.buffer.held ∧
    Screen.init.read s.buffer.held = Screen.init.read s.stream

theorem KeepsScreen.append (h : s.KeepsScreen)
    (bytes : List UInt8) : (step mux s (.append bytes)).KeepsScreen := by
  have hstream : (step mux s (.append bytes)).stream = s.stream ++ bytes := by
    simp [stream, step]
  have hheld : (step mux s (.append bytes)).buffer.held = s.buffer.held ++ bytes := by
    simp [held, heldRing, step, ReplayBuffer.append, tailContent]
  refine ⟨neverDrops_step (.append bytes) h.neverDrops, h.cap_pos, h.carriesAlone, ?_⟩
  intro hregular
  rw [hstream, Screen.regular_append] at hregular
  obtain ⟨hbefore, hread⟩ := h.screen hregular.1
  rw [hheld, hstream, Screen.regular_append, Screen.read_append, Screen.read_append, hread]
  exact ⟨⟨hbefore, hregular.2⟩, rfl⟩

theorem KeepsScreen.ack (h : s.KeepsScreen)
    (upTo : Int) (hclean : s.CleanStep (.ack upTo)) : (step mux s (.ack upTo)).KeepsScreen := by
  have hcounted : s.buffer.Counted := h.neverDrops.scrollbackBytes
  obtain ⟨halone, hheld⟩ := held_ack hcounted h.cap_pos h.carriesAlone upTo
  refine ⟨neverDrops_step (.ack upTo) h.neverDrops, ?_, halone, ?_⟩
  · show 0 < (s.buffer.ack upTo).scrollbackBytesCap
    rw [scrollbackBytesCap_ack hcounted]
    exact h.cap_pos
  · intro hregular
    obtain ⟨hbefore, hread⟩ := h.screen hregular
    show Screen.init.Regular (s.buffer.ack upTo).held ∧
      Screen.init.read (s.buffer.ack upTo).held = Screen.init.read s.stream
    rcases hheld with ⟨_, hsame⟩ | ⟨hsome, after, hwhole, htrimmed⟩
    · rw [hsame]
      exact ⟨hbefore, hread⟩
    · rw [hwhole] at hbefore hread
      obtain ⟨hafter, htrim⟩ := read_trimmedBytes (hclean hsome) hbefore
      rw [htrimmed, htrim]
      exact ⟨hafter, hread⟩

theorem keepsScreen_step (op : ReplayOp)
    (hclean : s.CleanStep op) (h : s.KeepsScreen) : (step mux s op).KeepsScreen := by
  cases op with
  | append bytes => exact h.append bytes
  | ack upTo => exact h.ack upTo hclean
  | setClientOnline | setPendingAltReopen | captureFold | adoptFold => exact absurd hclean not_false

theorem keepsScreen_start (maxBackup offlineGate : Nat) {scrollback : Nat} (hcap : 0 < scrollback)
    (distiller : Option (List UInt8 → List UInt8)) :
    (start { withCaps maxBackup offlineGate scrollback with
      scrollbackDistiller := distiller }).KeepsScreen :=
  ⟨neverDrops_start maxBackup offlineGate scrollback distiller, hcap, fun _ => rfl,
    fun _ => ⟨trivial, rfl⟩⟩

/-- With a ring to keep, after any run of appends and acks with clean cuts
over well-formed output: the carried re-opener, the ring and the tail leave
a terminal on the screen the whole stream leaves it on, and a re-opener is
carried only while the ring is empty. -/
theorem altScreen_survives_eviction (mux : MuxFlowControl) (maxBackup offlineGate scrollback : Nat)
    (distiller : Option (List UInt8 → List UInt8)) (ops : List ReplayOp)
    (hcap : 0 < scrollback)
    (hclean : Meets (step mux) CleanStep (start { withCaps maxBackup offlineGate scrollback with
      scrollbackDistiller := distiller }) ops)
    (hregular : Screen.init.Regular (run (step mux) (start
      { withCaps maxBackup offlineGate scrollback with scrollbackDistiller := distiller })
      ops).stream) :
    let s := run (step mux) (start { withCaps maxBackup offlineGate scrollback with
      scrollbackDistiller := distiller }) ops
    (Screen.init.read (s.buffer.pendingAltReopen.getD [] ++ ringContent s.buffer.scrollbackRing ++
        tailContent s.buffer.entries)).alt = (Screen.init.read s.stream).alt ∧
      (s.buffer.pendingAltReopen ≠ none → s.buffer.scrollbackRing = []) := by
  intro s
  have hs : s.KeepsScreen := hclean.invariant KeepsScreen (fun _ op => keepsScreen_step op)
    (keepsScreen_start maxBackup offlineGate hcap distiller)
  obtain ⟨_, hread⟩ := hs.screen hregular
  refine ⟨?_, hs.carriesAlone⟩
  show (Screen.init.read s.buffer.held).alt = _
  rw [hread]

/-- A segment opened, its first line and the start of its second evicted. -/
theorem altScreen_survives_line_trim :
    let s := run (step ⟨none, none⟩) (start (withCaps 100 100 12))
      [.append [0x1B, 0x5B, 0x3F, 0x31, 0x30, 0x34, 0x39, 0x68, 0x78, 0x0A],
        .append [0x69, 0x6E, 0x0A, 0x72, 0x65, 0x73, 0x74], .ack 1, .ack 2]
    (Screen.init.read (s.buffer.pendingAltReopen.getD [] ++ ringContent s.buffer.scrollbackRing ++
        tailContent s.buffer.entries)).alt = (Screen.init.read s.stream).alt ∧
      (s.buffer.pendingAltReopen ≠ none → s.buffer.scrollbackRing = []) :=
  altScreen_survives_eviction ⟨none, none⟩ 100 100 12 none _ (by decide) (by decide +kernel)
    (by decide +kernel)

/-- The screen of the ring and the tail alone, without what is carried, is
that of the whole stream. -/
def RetainsScreen (s : ReplaySession) : Prop :=
  (Screen.init.read (ringContent s.buffer.scrollbackRing ++ tailContent s.buffer.entries)).alt
    = (Screen.init.read s.stream).alt

instance (s : ReplaySession) : Decidable s.RetainsScreen := inferInstanceAs (Decidable (_ = _))

/-- Runs over well-formed output whose entries end outside string bodies,
and after which the ring and the tail alone are on another screen: an
emptied ring that carries its re-opener; no ring at all; a sequence across
the cut that is longer than the peek; and a line trim inside a title. -/
theorem altScreen_lost_by_ring_and_tail :
    let mux : MuxFlowControl := ⟨none, none⟩
    let enter : List UInt8 := [0x1B, 0x5B, 0x3F, 0x31, 0x30, 0x34, 0x39, 0x68]
    let text := List.replicate 16 (0x61 : UInt8)
    let separators := List.replicate 64 (0x3B : UInt8)
    ¬ (run (step mux) (start (withCaps 100 100 12))
        [.append (enter ++ text), .ack 1]).RetainsScreen ∧
    ¬ (run (step mux) (start (withCaps 100 100 0)) [.append enter, .ack 1]).RetainsScreen ∧
    ¬ (run (step mux) (start (withCaps 100 100 70))
        [.append (enter.take 3), .append (separators ++ enter.drop 3), .ack 2]).RetainsScreen ∧
    ¬ (run (step mux) (start (withCaps 100 100 20))
        [.append text, .append ([0x1B, 0x5D, 0x30, 0x3B, 0x0A] ++ enter ++ [0x07]),
          .ack 2]).RetainsScreen := by
  decide +kernel

end ReplaySession

end SlopDesk.Wire
