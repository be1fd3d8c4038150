/-
SlopDesk.Wire.ReplayTheorems — what each operation of the replay buffer
may change.

§1 rechunking keeps every byte, uses the sequence numbers it is given in
order, and ends on the last one when asked to. §2 one spec lemma per ring
operation: the fields it leaves alone, the byte counter, and where the
numbers in the ring come from. §3 an `ack` is a `Releases`, the record of
what leaves the tail.
-/
import SlopDesk.Wire.Replay

namespace SlopDesk.Wire

open SlopDesk.AltScreen
open SlopDesk.Mux

variable {seqs : List Int}

/-! ## §1 Rechunking -/

@[simp] theorem messageContent_nil : messageContent [] = [] := rfl
@[simp] theorem messageContent_cons (m : OutputMessage) (ms : List OutputMessage) :
    messageContent (m :: ms) = m.bytes ++ messageContent ms := rfl
@[simp] theorem chunkLoop_nil (size : Nat) (seqs : List Int) : chunkLoop size seqs [] = [] := by
  cases seqs with
  | nil => rfl
  | cons seq seqs => cases seqs <;> rfl

theorem chunkLoop_cons_cons (size : Nat) (seq next : Int) (seqs : List Int) {data : List UInt8}
    (h : data ≠ []) : chunkLoop size (seq :: next :: seqs) data
      = ⟨seq, data.take size⟩ :: chunkLoop size (next :: seqs) (data.drop size) := by
  cases data with
  | nil => exact absurd rfl h
  | cons byte data => rfl

theorem chunkLoop_ne_nil (size : Nat) {data : List UInt8} (h : seqs ≠ [])
    (hd : data ≠ []) : chunkLoop size seqs data ≠ [] := by
  cases seqs with
  | nil => exact absurd rfl h
  | cons seq seqs =>
    cases data with
    | nil => exact absurd rfl hd
    | cons byte data => cases seqs <;> simp [chunkLoop]

theorem messageContent_chunkLoop (size : Nat) (seqs : List Int) (data : List UInt8)
    (h : seqs ≠ []) : messageContent (chunkLoop size seqs data) = data := by
  induction seqs generalizing data with
  | nil => exact absurd rfl h
  | cons seq seqs ih =>
    by_cases hd : data = []
    case pos => simp [hd]
    case neg =>
      cases seqs with
      | nil =>
        cases data with
        | nil => exact absurd rfl hd
        | cons byte data => simp [chunkLoop]
      | cons next seqs =>
        rw [chunkLoop_cons_cons size seq next seqs hd, messageContent_cons, ih _ (by simp)]
        exact List.take_append_drop size data

theorem seqs_chunkLoop (size : Nat) (seqs : List Int) (data : List UInt8) :
    (chunkLoop size seqs data).map OutputMessage.seq <+: seqs := by
  induction seqs generalizing data with
  | nil => simp [chunkLoop]
  | cons seq seqs ih =>
    by_cases hd : data = []
    case pos => simp [hd]
    case neg =>
      cases seqs with
      | nil =>
        cases data with
        | nil => exact absurd rfl hd
        | cons byte data => simp [chunkLoop]
      | cons next seqs =>
        grind [chunkLoop_cons_cons, List.map_cons]

theorem relabelLast_cons_cons (seq : Int) (m next : OutputMessage) (ms : List OutputMessage) :
    relabelLast seq (m :: next :: ms) = m :: relabelLast seq (next :: ms) := rfl

theorem messageContent_relabelLast (seq : Int) (ms : List OutputMessage) :
    messageContent (relabelLast seq ms) = messageContent ms := by
  induction ms with
  | nil => rfl
  | cons m ms ih =>
    cases ms with
    | nil => rfl
    | cons next ms =>
      rw [relabelLast_cons_cons, messageContent_cons, ih]
      rfl

theorem getLast?_relabelLast (seq : Int) {ms : List OutputMessage} (h : ms ≠ []) :
    ((relabelLast seq ms).map OutputMessage.seq).getLast? = some seq := by
  induction ms with
  | nil => exact absurd rfl h
  | cons m ms ih =>
    cases ms with
    | nil => rfl
    | cons next ms =>
      have htail := ih (by simp)
      rw [relabelLast_cons_cons, List.map_cons, List.getLast?_cons, htail]
      rfl

theorem seqs_relabelLast {last : Int} {ms : List OutputMessage} (h : ms ≠ [])
    (hpre : ms.map OutputMessage.seq <+: seqs) (hlast : seqs.getLast? = some last) :
    ((relabelLast last ms).map OutputMessage.seq).Sublist seqs := by
  induction ms generalizing seqs with
  | nil => exact absurd rfl h
  | cons m ms ih =>
    cases ms with
    | nil => exact List.singleton_sublist.mpr (List.mem_of_getLast? hlast)
    | cons next ms =>
      cases seqs with
      | nil => simp at hpre
      | cons seq seqs =>
        obtain ⟨hseq, htail⟩ := List.cons_prefix_cons.mp hpre
        have hne : seqs ≠ [] := by
          grind
        have hlast' : seqs.getLast? = some last := by
          grind
        rw [relabelLast_cons_cons, List.map_cons, hseq]
        exact (ih (by simp) htail hlast').cons_cons seq

theorem messageContent_rechunk (mux : MuxFlowControl) (data : List UInt8)
    (cover : Bool) (h : seqs ≠ []) : messageContent (rechunk mux data seqs cover) = data := by
  unfold rechunk
  cases hlast : seqs.getLast? with
  | none => exact absurd (List.getLast?_eq_none_iff.mp hlast) h
  | some last =>
    dsimp only
    by_cases hd : data = []
    case pos => cases cover <;> simp [hd]
    case neg =>
      have hcontent := messageContent_chunkLoop (chunkSize mux data.length seqs.length) seqs data h
      rw [if_neg (by simpa using hd)]
      cases cover with
      | true => rw [if_pos rfl, messageContent_relabelLast, hcontent]
      | false => rw [if_neg (by simp), hcontent]

theorem seqs_rechunk (mux : MuxFlowControl) (data : List UInt8) (seqs : List Int) (cover : Bool) :
    ((rechunk mux data seqs cover).map OutputMessage.seq).Sublist seqs := by
  unfold rechunk
  cases hlast : seqs.getLast? with
  | none => simp
  | some last =>
    dsimp only
    by_cases hd : data = []
    case pos =>
      grind
    case neg =>
      have hne : seqs ≠ [] := by
        intro hnil
        rw [hnil] at hlast
        cases hlast
      have hpre := seqs_chunkLoop (chunkSize mux data.length seqs.length) seqs data
      rw [if_neg (by simpa using hd)]
      cases cover with
      | true => exact seqs_relabelLast (chunkLoop_ne_nil _ hne hd) hpre hlast
      | false => exact hpre.sublist

theorem getLast?_rechunk (mux : MuxFlowControl) (data : List UInt8) (seqs : List Int) :
    ((rechunk mux data seqs true).map OutputMessage.seq).getLast? = seqs.getLast? := by
  unfold rechunk
  cases hlast : seqs.getLast? with
  | none => rfl
  | some last =>
    dsimp only
    by_cases hd : data = []
    case pos =>
      rw [if_pos (by simpa using hd)]
      rfl
    case neg =>
      have hne : seqs ≠ [] := by
        intro hnil
        rw [hnil] at hlast
        cases hlast
      rw [if_neg (by simpa using hd)]
      exact getLast?_relabelLast last (chunkLoop_ne_nil _ hne hd)

/-! ## §2 The ring -/

@[simp] theorem ringContent_nil : ringContent [] = [] := rfl
@[simp] theorem ringContent_cons (e : RingEntry) (ring : List RingEntry) :
    ringContent (e :: ring) = e.bytes ++ ringContent ring := rfl
@[simp] theorem ringContent_append (a b : List RingEntry) :
    ringContent (a ++ b) = ringContent a ++ ringContent b := by
  simp [ringContent]

theorem ringContent_map_tail (entries : List TailEntry) :
    ringContent (entries.map fun e => ⟨e.seq, e.bytes⟩) = tailContent entries := by
  simp [ringContent, tailContent, List.flatMap_map]

@[simp] theorem tailContent_append (a b : List TailEntry) :
    tailContent (a ++ b) = tailContent a ++ tailContent b := by
  simp [tailContent]

theorem length_tailContent (entries : List TailEntry) :
    (tailContent entries).length = (entries.map fun e => e.bytes.length).sum := by
  simp [tailContent, List.length_flatMap]

/-- The newest entries of a ring, as many as fit a cap. -/
def newestFitting (cap : Nat) : List RingEntry → List RingEntry
  | [] => []
  | entry :: ring =>
    if (ringContent (entry :: ring)).length ≤ cap then entry :: ring else newestFitting cap ring

/-- A ring whose head has lost everything up to its first newline. -/
def lineAligned : List RingEntry → List RingEntry
  | [] => []
  | head :: rest =>
    match head.bytes.findIdx? (· == 0x0A) with
    | none => head :: rest
    | some newline => { head with bytes := head.bytes.drop (newline + 1) } :: rest

/-- What an eviction is to keep of a ring that does not fit. -/
def survivors (cap : Nat) (ring : List RingEntry) : List RingEntry :=
  lineAligned (newestFitting cap ring)

theorem newestFitting_suffix (cap : Nat) (ring : List RingEntry) : newestFitting cap ring <:+ ring := by
  induction ring with
  | nil => exact List.suffix_refl []
  | cons entry ring ih =>
    grind [newestFitting]

theorem length_newestFitting (cap : Nat) (ring : List RingEntry) :
    (ringContent (newestFitting cap ring)).length ≤ cap := by
  induction ring with
  | nil => exact Nat.zero_le cap
  | cons entry ring ih =>
    grind [newestFitting]

theorem lineAligned_cases (ring : List RingEntry) : lineAligned ring = ring ∨
    ∃ head rest newline, ring = head :: rest ∧ newline < head.bytes.length ∧
      lineAligned ring = { head with bytes := head.bytes.drop (newline + 1) } :: rest := by
  cases ring with
  | nil => exact .inl rfl
  | cons head rest =>
    cases hfind : head.bytes.findIdx? (· == 0x0A) with
    | none => exact .inl (by simp [lineAligned, hfind])
    | some newline =>
      obtain ⟨hlt, _⟩ := List.findIdx?_eq_some_iff_getElem.mp hfind
      exact .inr ⟨head, rest, newline, rfl, hlt, by simp [lineAligned, hfind]⟩

theorem seqs_survivors (cap : Nat) (ring : List RingEntry) :
    (survivors cap ring).map RingEntry.seq <:+ ring.map RingEntry.seq := by
  have hsuffix := (newestFitting_suffix cap ring).map RingEntry.seq
  unfold survivors
  rcases lineAligned_cases (newestFitting cap ring) with heq | ⟨head, rest, newline, hring, _, heq⟩
  · rwa [heq]
  · rw [hring] at hsuffix
    rw [heq]
    exact hsuffix

/-- The counting loop counts the entries in front of those that fit, and
their bytes. -/
theorem evictionPrefix_spec (cap bytes dropCount droppedBytes : Nat) (ring : List RingEntry)
    (hbytes : bytes = droppedBytes + (ringContent ring).length) :
    ∃ k, evictionPrefix bytes cap dropCount droppedBytes ring
        = (dropCount + k, droppedBytes + (ringContent (ring.take k)).length) ∧
      ring.drop k = newestFitting cap ring := by
  induction ring generalizing dropCount droppedBytes with
  | nil => exact ⟨0, by simp [evictionPrefix], rfl⟩
  | cons entry ring ih =>
    have hleft : bytes - droppedBytes = (ringContent (entry :: ring)).length := by omega
    rw [evictionPrefix, newestFitting, hleft]
    by_cases hfits : (ringContent (entry :: ring)).length ≤ cap
    case pos =>
      rw [if_neg (by omega), if_pos hfits]
      exact ⟨0, by simp, rfl⟩
    case neg =>
      have hrest : bytes = droppedBytes + entry.bytes.length + (ringContent ring).length := by
        rw [hbytes, ringContent_cons, List.length_append, Nat.add_assoc]
      obtain ⟨k, heq, hdrop⟩ := ih (dropCount + 1) (droppedBytes + entry.bytes.length) hrest
      rw [if_pos (by omega), if_neg hfits]
      refine ⟨k + 1, ?_, hdrop⟩
      rw [heq]
      simp [Nat.add_assoc, Nat.add_comm 1 k]

/-- The byte counter of the ring is right. -/
def ReplayBuffer.Counted (b : ReplayBuffer) : Prop :=
  b.scrollbackBytes = (ringContent b.scrollbackRing).length

/-- A cut splits the ring's bytes in two, and counts those that stay. -/
structure Cuts (ring : List RingEntry) (cut : Eviction) : Prop where
  content : cut.dropped ++ ringContent cut.ring = ringContent ring
  counted : cut.bytes = (ringContent cut.ring).length

theorem Cuts.align {cap : Nat} {ring : List RingEntry} {cut : Eviction} (h : Cuts ring cut)
    (hfits : cut.bytes ≤ cap) : Cuts ring (alignToLine cap cut) ∧
      (alignToLine cap cut).ring = lineAligned cut.ring := by
  obtain ⟨hcontent, hcounted⟩ := h
  unfold alignToLine
  rw [if_pos hfits]
  cases hring : cut.ring with
  | nil => exact ⟨⟨hcontent, hcounted⟩, hring⟩
  | cons head rest =>
    cases hfind : head.bytes.findIdx? (· == 0x0A) with
    | none =>
      simp only [hfind, lineAligned]
      exact ⟨⟨hcontent, hcounted⟩, hring⟩
    | some newline =>
      obtain ⟨hlt, _⟩ := List.findIdx?_eq_some_iff_getElem.mp hfind
      rw [hring] at hcontent hcounted
      simp only [hfind, lineAligned]
      refine ⟨⟨?_, ?_⟩, trivial⟩
      · grind [ringContent_cons, List.append_assoc, List.append_assoc, List.take_append_drop]
      · grind [ringContent_cons, List.length_append, List.length_drop]

namespace ReplayBuffer

variable {b : ReplayBuffer}

theorem cuts_evictionCut (h : b.Counted) : Cuts b.scrollbackRing b.evictionCut ∧
      b.evictionCut.ring = survivors b.scrollbackBytesCap b.scrollbackRing := by
  obtain ⟨k, heq, hdrop⟩ := evictionPrefix_spec b.scrollbackBytesCap b.scrollbackBytes 0 0
    b.scrollbackRing (by rw [Nat.zero_add]; exact h)
  have hsplit : ringContent (b.scrollbackRing.take k) ++
      ringContent (newestFitting b.scrollbackBytesCap b.scrollbackRing)
      = ringContent b.scrollbackRing := by
    rw [← hdrop, ← ringContent_append, List.take_append_drop]
  have hfits := length_newestFitting b.scrollbackBytesCap b.scrollbackRing
  have hlen := congrArg List.length hsplit
  rw [List.length_append] at hlen
  unfold Counted at h
  simp only [Nat.zero_add] at heq
  unfold evictionCut survivors
  dsimp only
  rw [heq, hdrop]
  exact Cuts.align ⟨hsplit, by dsimp only; omega⟩ (by dsimp only; omega)

theorem dropped_evictionCut (h : b.Counted) :
    b.evictionCut.dropped ++ ringContent (survivors b.scrollbackBytesCap b.scrollbackRing)
      = ringContent b.scrollbackRing := by
  obtain ⟨hcut, hring⟩ := cuts_evictionCut h
  rw [← hring]
  exact hcut.content

/-- `b'` is `b` with another ring, ring counter and carried re-opener. -/
structure RingOnly (b b' : ReplayBuffer) : Prop where
  entries : b'.entries = b.entries
  highestSeq : b'.highestSeq = b.highestSeq
  ackedSeq : b'.ackedSeq = b.ackedSeq
  retainedBytes : b'.retainedBytes = b.retainedBytes
  tailCumulativeBytes : b'.tailCumulativeBytes = b.tailCumulativeBytes
  scrollbackBytesCap : b'.scrollbackBytesCap = b.scrollbackBytesCap
  scrollbackDistiller : b'.scrollbackDistiller = b.scrollbackDistiller

theorem RingOnly.refl (b : ReplayBuffer) : RingOnly b b := ⟨rfl, rfl, rfl, rfl, rfl, rfl, rfl⟩

theorem RingOnly.trans {a c : ReplayBuffer} (hab : RingOnly a b) (hbc : RingOnly b c) : RingOnly a c :=
  ⟨hbc.entries.trans hab.entries, hbc.highestSeq.trans hab.highestSeq,
    hbc.ackedSeq.trans hab.ackedSeq, hbc.retainedBytes.trans hab.retainedBytes,
    hbc.tailCumulativeBytes.trans hab.tailCumulativeBytes,
    hbc.scrollbackBytesCap.trans hab.scrollbackBytesCap,
    hbc.scrollbackDistiller.trans hab.scrollbackDistiller⟩

/-- What `attach_pending_reopen` does: nothing, or move the carried
re-opener onto the head. -/
theorem attach_cases (b : ReplayBuffer) :
    (b.attachPendingReopen = b ∧ (b.scrollbackRing = [] ∨ b.pendingAltReopen = none)) ∨
    ∃ head rest reopen, b.scrollbackRing = head :: rest ∧ b.pendingAltReopen = some reopen ∧
      b.attachPendingReopen = { b with
        pendingAltReopen := none
        scrollbackRing := { head with bytes := reopen ++ head.bytes } :: rest
        scrollbackBytes := b.scrollbackBytes + reopen.length } := by
  unfold attachPendingReopen
  cases hring : b.scrollbackRing with
  | nil => exact .inl ⟨by simp, .inl rfl⟩
  | cons head rest =>
    cases hpending : b.pendingAltReopen with
    | none => exact .inl ⟨by simp, .inr rfl⟩
    | some reopen => exact .inr ⟨head, rest, reopen, rfl, rfl, by simp⟩

theorem ringOnly_attach (b : ReplayBuffer) : RingOnly b b.attachPendingReopen := by
  rcases attach_cases b with ⟨heq, _⟩ | ⟨head, rest, reopen, _, _, heq⟩
  · rw [heq]; exact RingOnly.refl b
  · rw [heq]; exact ⟨rfl, rfl, rfl, rfl, rfl, rfl, rfl⟩

theorem Counted.attach (h : b.Counted) : b.attachPendingReopen.Counted := by
  rcases attach_cases b with ⟨heq, _⟩ | ⟨head, rest, reopen, hring, _, heq⟩
  · rwa [heq]
  · unfold Counted at h ⊢
    rw [hring, ringContent_cons, List.length_append] at h
    rw [heq]
    simp only [ringContent_cons, List.length_append]
    omega

theorem seqs_attach (b : ReplayBuffer) : b.attachPendingReopen.scrollbackRing.map RingEntry.seq
      = b.scrollbackRing.map RingEntry.seq := by
  rcases attach_cases b with ⟨heq, _⟩ | ⟨head, rest, reopen, hring, _, heq⟩
  · rw [heq]
  · rw [heq, hring]; rfl

/-- What `evict_scrollback_to_fit` does: nothing, or cut, and then repair
the cut if it falls inside an open alt segment. -/
theorem evict_cases (b : ReplayBuffer) : (b.evicts = false ∧ b.evictScrollbackToFit = b) ∨
    (b.evicts = true ∧ b.cutReopen = none ∧ b.evictScrollbackToFit = b.cutRing) ∨
    ∃ reopen, b.evicts = true ∧ b.cutReopen = some reopen ∧
      b.evictScrollbackToFit = (b.cutRing.carrying reopen).attachPendingReopen := by
  unfold evictScrollbackToFit
  cases b.evicts with
  | false => exact .inl ⟨rfl, rfl⟩
  | true =>
    cases b.cutReopen with
    | none => exact .inr (.inl ⟨rfl, rfl, rfl⟩)
    | some reopen => exact .inr (.inr ⟨reopen, rfl, rfl, rfl⟩)

theorem ringOnly_evict (b : ReplayBuffer) : RingOnly b b.evictScrollbackToFit := by
  rcases evict_cases b with ⟨_, heq⟩ | ⟨_, _, heq⟩ | ⟨reopen, _, _, heq⟩
  · rw [heq]; exact RingOnly.refl b
  · rw [heq]; exact ⟨rfl, rfl, rfl, rfl, rfl, rfl, rfl⟩
  · have hcarrying : RingOnly b (b.cutRing.carrying reopen) := ⟨rfl, rfl, rfl, rfl, rfl, rfl, rfl⟩
    rw [heq]; exact hcarrying.trans (ringOnly_attach _)

theorem Counted.evict (h : b.Counted) : b.evictScrollbackToFit.Counted := by
  obtain ⟨hcut, _⟩ := cuts_evictionCut h
  rcases evict_cases b with ⟨_, heq⟩ | ⟨_, _, heq⟩ | ⟨reopen, _, _, heq⟩
  · rwa [heq]
  · rw [heq]; exact hcut.counted
  · have hcarrying : (b.cutRing.carrying reopen).Counted := hcut.counted
    rw [heq]; exact hcarrying.attach

theorem seqs_evict (h : b.Counted) : b.evictScrollbackToFit.scrollbackRing.map RingEntry.seq
      <:+ b.scrollbackRing.map RingEntry.seq := by
  have hseqs := seqs_survivors b.scrollbackBytesCap b.scrollbackRing
  rw [← (cuts_evictionCut h).2] at hseqs
  rcases evict_cases b with ⟨_, heq⟩ | ⟨_, _, heq⟩ | ⟨reopen, _, _, heq⟩
  · exact heq.symm ▸ List.suffix_refl _
  · rw [heq]; exact hseqs
  · rw [heq, seqs_attach]; exact hseqs

theorem moveToRing_cases (b : ReplayBuffer) (released : List TailEntry) :
    (b.scrollbackRing = [] ∧ b.moveToRing released = (b.joined released).attachPendingReopen) ∨
    (b.scrollbackRing ≠ [] ∧ b.moveToRing released = b.joined released) := by
  unfold moveToRing
  cases b.scrollbackRing with
  | nil => exact .inl ⟨rfl, rfl⟩
  | cons head rest => exact .inr ⟨by simp, rfl⟩

theorem ringOnly_moveToRing (b : ReplayBuffer) (released : List TailEntry) :
    RingOnly b (b.moveToRing released) := by
  have hjoined : RingOnly b (b.joined released) := ⟨rfl, rfl, rfl, rfl, rfl, rfl, rfl⟩
  rcases moveToRing_cases b released with ⟨_, heq⟩ | ⟨_, heq⟩
  · rw [heq]; exact hjoined.trans (ringOnly_attach _)
  · rw [heq]; exact hjoined

theorem Counted.joined (h : b.Counted) (released : List TailEntry) : (b.joined released).Counted := by
  unfold Counted at h ⊢
  simp only [ReplayBuffer.joined, ringContent_append, List.length_append, ringContent_map_tail,
    length_tailContent, h]

theorem Counted.moveToRing (h : b.Counted) (released : List TailEntry) :
    (b.moveToRing released).Counted := by
  rcases moveToRing_cases b released with ⟨_, heq⟩ | ⟨_, heq⟩
  · rw [heq]; exact (h.joined released).attach
  · rw [heq]; exact h.joined released

theorem seqs_moveToRing (b : ReplayBuffer) (released : List TailEntry) :
    (b.moveToRing released).scrollbackRing.map RingEntry.seq
      = b.scrollbackRing.map RingEntry.seq ++ released.map TailEntry.seq := by
  have hjoined : (b.joined released).scrollbackRing.map RingEntry.seq
      = b.scrollbackRing.map RingEntry.seq ++ released.map TailEntry.seq := by
    simp [joined]
  rcases moveToRing_cases b released with ⟨_, heq⟩ | ⟨_, heq⟩
  · rw [heq, seqs_attach, hjoined]
  · rw [heq, hjoined]

theorem retire_cases (b : ReplayBuffer) (released : List TailEntry) :
    (b.scrollbackBytesCap = 0 ∧ b.retire released = b) ∨
    (0 < b.scrollbackBytesCap ∧
      b.retire released = (b.moveToRing released).evictScrollbackToFit) := by
  by_cases hcap : b.scrollbackBytesCap > 0
  case pos => exact .inr ⟨hcap, if_pos hcap⟩
  case neg => exact .inl ⟨by omega, if_neg hcap⟩

theorem ringOnly_retire (b : ReplayBuffer) (released : List TailEntry) :
    RingOnly b (b.retire released) := by
  rcases retire_cases b released with ⟨_, heq⟩ | ⟨_, heq⟩
  · rw [heq]; exact RingOnly.refl b
  · rw [heq]; exact (ringOnly_moveToRing b released).trans (ringOnly_evict _)

theorem Counted.retire (h : b.Counted) (released : List TailEntry) : (b.retire released).Counted := by
  rcases retire_cases b released with ⟨_, heq⟩ | ⟨_, heq⟩
  · rwa [heq]
  · rw [heq]; exact (h.moveToRing released).evict

/-- The ring's numbers stay in order: some of the old ones, then some of the
released ones. -/
theorem seqs_retire (h : b.Counted) (released : List TailEntry) :
    ((b.retire released).scrollbackRing.map RingEntry.seq).Sublist
      (b.scrollbackRing.map RingEntry.seq ++ released.map TailEntry.seq) := by
  rcases retire_cases b released with ⟨_, heq⟩ | ⟨_, heq⟩
  · rw [heq]; exact List.sublist_append_left _ _
  · have hsuffix := seqs_evict (h.moveToRing released)
    rw [seqs_moveToRing] at hsuffix
    rw [heq]; exact hsuffix.sublist

/-! ## §3 Acking -/

/-- The buffer as it is once `n` entries have left its tail. -/
structure Releases (b b' : ReplayBuffer) (n : Nat) : Prop where
  entries : b'.entries = b.entries.drop n
  highestSeq : b'.highestSeq = b.highestSeq
  ackedSeq : b'.ackedSeq = b.ackedSeq
  retainedBytes : b'.retainedBytes = b.retainedBytes - (tailContent (b.entries.take n)).length
  tailCumulativeBytes : b'.tailCumulativeBytes = b.tailCumulativeBytes
  scrollbackBytesCap : b'.scrollbackBytesCap = b.scrollbackBytesCap
  scrollbackDistiller : b'.scrollbackDistiller = b.scrollbackDistiller
  counted : b'.Counted
  seqs : (b'.scrollbackRing.map RingEntry.seq).Sublist
    (b.scrollbackRing.map RingEntry.seq ++ (b.entries.take n).map TailEntry.seq)

theorem releases_releasePrefix (h : b.Counted) (n : Nat) : Releases b (b.releasePrefix n) n := by
  have hdrained : (b.drainTail n).Counted := h
  have honly := ringOnly_retire (b.drainTail n) (b.entries.take n)
  refine ⟨honly.entries, honly.highestSeq, honly.ackedSeq, ?_, honly.tailCumulativeBytes,
    honly.scrollbackBytesCap, honly.scrollbackDistiller, hdrained.retire _,
    seqs_retire hdrained (b.entries.take n)⟩
  rw [length_tailContent]
  show (ReplayBuffer.retire _ _).retainedBytes - _ = _
  rw [honly.retainedBytes]
  rfl

theorem Releases.refl (h : b.Counted) : Releases b b 0 :=
  ⟨rfl, rfl, rfl, by simp [tailContent], rfl, rfl, rfl, h, by simp⟩

/-- What `ack` does: nothing, or move the acked number and release the
entries it passes. -/
theorem ack_cases (h : b.Counted) (upTo : Int) : (min upTo b.highestSeq ≤ b.ackedSeq ∧ b.ack upTo = b) ∨
    (b.ackedSeq < min upTo b.highestSeq ∧
      Releases (b.advance (min upTo b.highestSeq)) (b.ack upTo)
        (b.entries.takeWhile fun e => e.seq ≤ min upTo b.highestSeq).length) := by
  have hadvanced : (b.advance (min upTo b.highestSeq)).Counted := h
  unfold ack partitionPoint
  by_cases hstale : min upTo b.highestSeq ≤ b.ackedSeq
  case pos =>
    rw [if_pos hstale]
    exact .inl ⟨hstale, rfl⟩
  case neg =>
    refine .inr ⟨by omega, ?_⟩
    rw [if_neg hstale]
    by_cases hnone : (b.entries.takeWhile fun e => e.seq ≤ min upTo b.highestSeq).length = 0
    case pos =>
      rw [if_pos hnone, hnone]
      exact Releases.refl hadvanced
    case neg =>
      rw [if_neg hnone]
      exact releases_releasePrefix hadvanced _

theorem ackedSeq_le_ack (h : b.Counted) (upTo : Int) : b.ackedSeq ≤ (b.ack upTo).ackedSeq := by
  rcases ack_cases h upTo with ⟨_, heq⟩ | ⟨hpast, hreleases⟩
  · exact heq.symm ▸ Int.le_refl _
  · rw [hreleases.ackedSeq]
    exact Int.le_of_lt hpast

end ReplayBuffer

end SlopDesk.Wire
