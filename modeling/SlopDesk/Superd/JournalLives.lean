/-
SlopDesk.Superd.JournalLives — one session's journal across the lives that
write it (`slopdesk-superd/src/journal.rs`).

A life opens the journal, appends chunks of its stream, asks for flushes and
closes it; the next life appends behind what it finds. Whatever the lives,
the file is a re-opener, if there is one, and a suffix of all that was ever
appended. Its length is checked against the cap on a count of the bytes on
disk, which a writer has only once its first flush has opened the file: from
its second flush on the file is within its bound.
-/
import SlopDesk.AltScreen.ReopenTheorems
import SlopDesk.Superd.Journal

namespace SlopDesk.Superd

open SlopDesk.Base
open SlopDesk.AltScreen
open SlopDesk.AltScreen.Screen (init)
open SlopDesk.Sanitize (esc parseCsi)

variable {cap : Nat} {file written : List UInt8} {w : Writer}

/-! ## §1 The lives -/

/-- What is asked of the store under the one pane id. -/
inductive JournalCall where
  | openEntry (cap start : Nat)
  | append (chunk : List UInt8)
  | sync
  | head
  | close
  deriving DecidableEq

/-- A store, with what it was given: all the bytes ever appended, and of the
life that is on the stream offset of its next byte and the offset just past
the last one it appended. -/
structure Recording where
  store : JournalStore
  appended : List UInt8
  next : Nat
  past : Nat

namespace Recording

/-- Nothing was ever written. -/
def blank : Recording := ⟨⟨none, fun _ => []⟩, [], 0, 0⟩

/-- One call, for a session's journal. Offsets are consecutive. -/
def step (dir sessionId : String) (r : Recording) : JournalCall → Recording
  | .openEntry cap start => { r with store := r.store.openEntry dir sessionId cap, next := start, past := 0 }
  | .append chunk =>
    let stop := r.next + chunk.length
    { store := r.store.append chunk stop
      appended := r.appended ++ chunk
      next := stop
      past := if chunk = [] then r.past else stop }
  | .sync => { r with store := r.store.sync }
  | .head => { r with store := r.store.head.1 }
  | .close => { r with store := r.store.close }

end Recording

/-- A life: its cap, the stream offset it starts at, and what it asks for
between its opening and its close. -/
structure JournalLife where
  cap : Nat
  start : Nat
  calls : List JournalCall

namespace JournalLife

/-- The calls of a life that is over. -/
def ended (life : JournalLife) : List JournalCall := .openEntry life.cap life.start :: (life.calls ++ [.close])

end JournalLife

/-- Something is appended. -/
def Appends (calls : List JournalCall) : Prop := ∃ chunk, chunk ≠ [] ∧ .append chunk ∈ calls

/-- A flush is asked for. -/
def Flushes (calls : List JournalCall) : Prop := .sync ∈ calls ∨ .head ∈ calls

/-- A flush has had something to write before the one that writes the last
of these. -/
def WritesAgain (calls : List JournalCall) : Prop :=
  ∃ first middle last, calls = first ++ (middle ++ last) ∧ Appends first ∧ Flushes middle ∧ Appends last

/-! ## §2 Compaction -/

/-- Where a rewrite cuts. -/
def cutAt (cap : Nat) (current : List UInt8) : Nat :=
  let cut := current.length - cap
  let scanEnd := min current.length (cut + newlineScanBytes)
  match ((current.take scanEnd).drop cut).findIdx? (· == 0x0A) with
  | some offset => cut + offset + 1
  | none => cut

theorem compacted_eq (cap : Nat) (current : List UInt8) : compacted cap current =
    (reopenSequence (current.take (cutAt cap current)) ((current.drop (cutAt cap current)).take altPeekBytes)).getD []
      ++ current.drop (cutAt cap current) := by
  simp only [compacted, cutAt]
  cases ((current.take (min current.length (current.length - cap + newlineScanBytes))).drop
      (current.length - cap)).findIdx? (· == 0x0A) with
  | none =>
    dsimp only
    split <;> simp [*]
  | some offset =>
    dsimp only
    split <;> simp [*]

theorem le_cutAt (cap : Nat) (current : List UInt8) : current.length - cap ≤ cutAt cap current := by
  simp only [cutAt]
  split <;> omega

/-- What re-opens the alternate screen, or nothing. -/
def Opener (opener : List UInt8) : Prop := opener = [] ∨ ∃ mode ∈ altModes, opener = enterSequence mode

/-- The longest re-opener. -/
def reopenerBytes : Nat := 8

theorem Opener.length_le {opener : List UInt8} (h : Opener opener) : opener.length ≤ reopenerBytes := by
  rcases h with rfl | ⟨mode, hmode, rfl⟩
  · exact Nat.zero_le _
  · simp only [altModes, List.mem_cons, List.not_mem_nil, or_false] at hmode
    rcases hmode with rfl | rfl | rfl <;> decide +kernel

theorem altTransitionParam_mem {sequence : Sanitize.Csi} {mode : Nat} (h : altTransitionParam sequence = some mode) :
    mode ∈ altModes := by
  rw [altTransitionParam] at h
  split at h
  · cases h
  split at h
  · cases h
  split at h
  · cases h
  split at h
  · cases h
  have hfound := List.find?_some h
  exact List.contains_iff_mem.mp hfound

theorem scan_mode (bytes : List UInt8) (boundary fuel index : Nat) (inAlt : Bool) {enterMode : Nat}
    (h : enterMode ∈ altModes) : (scan bytes boundary fuel index inAlt enterMode).2 ∈ altModes := by
  induction fuel generalizing index inAlt enterMode with
  | zero => exact h
  | succ fuel ih =>
    rw [scan]
    by_cases hbefore : index < boundary
    case neg =>
      rw [if_neg hbefore]
      exact h
    rw [if_pos hbefore]
    by_cases htext : bytes[index]? ≠ some esc ∨ index + 1 ≥ bytes.length
    case pos =>
      rw [if_pos htext]
      exact ih _ _ h
    rw [if_neg htext]
    split
    · -- a control sequence, which may name a mode
      cases parseCsi bytes index with
      | none => exact ih _ _ h
      | some sequence =>
        cases hparam : altTransitionParam sequence with
        | none =>
          simp only [hparam]
          exact ih _ _ h
        | some mode =>
          simp only [hparam]
          refine ih _ _ ?_
          split
          · exact altTransitionParam_mem hparam
          · exact h
    · grind
    · exact ih _ _ h

theorem opener_reopenSequence (dropped keptHead : List UInt8) : Opener ((reopenSequence dropped keptHead).getD []) := by
  have hmode := scan_mode (dropped ++ keptHead.take straddlePeekBytes) dropped.length dropped.length 0 false
    (by decide : 1049 ∈ altModes)
  simp only [reopenSequence]
  split
  · exact .inr ⟨_, hmode, rfl⟩
  · exact .inl rfl

theorem compacted_spec (hcap : reopenerBytes ≤ cap) {current : List UInt8}
    (hover : compactMultiple * cap < current.length) :
    reopenerBytes ≤ cutAt cap current ∧ (compacted cap current).length ≤ compactMultiple * cap := by
  have hcut := le_cutAt cap current
  have hopener := (opener_reopenSequence (current.take (cutAt cap current))
    ((current.drop (cutAt cap current)).take altPeekBytes)).length_le
  rw [compacted_eq, List.length_append, List.length_drop]
  simp only [compactMultiple, reopenerBytes] at *
  omega

/-! ## §3 Flushes -/

/-- A writer between calls: nothing has failed, and what it counts is no more
than what is there, exactly that while the file is open. -/
structure Writer.Sound (w : Writer) (file : List UInt8) : Prop where
  cap : reopenerBytes ≤ w.cap
  floor : w.retryFloor = 0
  counts : w.onDisk ≤ file.length
  handle : w.handle = true → w.onDisk = file.length

/-- A flush takes the file past the doubling point, by the writer's count. -/
def Writer.Rewrites (w : Writer) : Prop :=
  w.pending ≠ [] ∧ w.cap * compactMultiple < w.onDisk + w.pending.length

instance (w : Writer) : Decidable w.Rewrites := inferInstanceAs (Decidable (_ ∧ _))

theorem Writer.Sound.opened (h : w.Sound file) :
    (w.openIfNeeded file).onDisk = file.length ∧ (w.openIfNeeded file).cap = w.cap := by
  unfold openIfNeeded
  split
  · rename_i hhandle
    exact ⟨h.handle hhandle, rfl⟩
  · exact ⟨rfl, rfl⟩

theorem Writer.Sound.flush (h : w.Sound file) (hpending : w.pending ≠ []) :
    (w.flush file).1.Sound (w.flush file).2 ∧ (w.flush file).1.onDisk = (w.flush file).2.length ∧
      (w.flush file).1.cap = w.cap ∧
      (w.flush file).2 = if w.Rewrites then compacted w.cap (file ++ w.pending) else file ++ w.pending := by
  obtain ⟨hcount, hcap⟩ := h.opened
  have hfloor : max (w.cap * compactMultiple) w.retryFloor = w.cap * compactMultiple := by
    rw [h.floor, Nat.max_zero]
  have hcounts := h.counts
  by_cases hover : w.Rewrites
  · have hlong : ¬ (file ++ w.pending).length ≤ w.cap := by
      have hlarge := hover.2
      have hpos := h.cap
      simp only [compactMultiple, reopenerBytes, List.length_append] at hlarge hpos ⊢
      omega
    have hflush : w.flush file = ({ w.openIfNeeded file with
        pending := [], flushedEnd := w.pendingEnd, handle := false, retryFloor := 0,
        onDisk := (compacted w.cap (file ++ w.pending)).length }, compacted w.cap (file ++ w.pending)) := by
      simp only [Writer.flush, if_neg hpending, hfloor, gt_iff_lt, if_pos hover.2, writeThrough, rewriteToTail, hcap,
        if_neg hlong]
    rw [hflush, if_pos hover]
    refine ⟨⟨?_, rfl, Nat.le_refl _, fun _ => rfl⟩, rfl, hcap, rfl⟩
    rw [hcap]
    exact h.cap
  · have hsmall : ¬ w.onDisk + w.pending.length > w.cap * compactMultiple := fun hlarge => hover ⟨hpending, hlarge⟩
    have hflush : w.flush file = (w.writeThrough file) := by
      simp only [Writer.flush, if_neg hpending, hfloor, if_neg hsmall]
    rw [hflush, if_neg hover]
    have hwritten : (w.writeThrough file).1.onDisk = (w.writeThrough file).2.length := by
      simp [writeThrough, hcount]
    refine ⟨⟨?_, ?_, Nat.le_of_eq hwritten, fun _ => hwritten⟩, hwritten, hcap, rfl⟩
    · show reopenerBytes ≤ (w.openIfNeeded file).cap
      rw [hcap]
      exact h.cap
    · show (w.openIfNeeded file).retryFloor = 0
      unfold openIfNeeded
      split
      · exact h.floor
      · exact h.floor

theorem Writer.Sound.bounded (h : w.Sound file) (hpending : w.pending ≠ [])
    (hcount : w.onDisk = file.length) : (w.flush file).2.length ≤ compactMultiple * w.cap := by
  obtain ⟨-, -, -, hfile⟩ := h.flush hpending
  rw [hfile]
  by_cases hover : w.Rewrites
  · rw [if_pos hover]
    refine (compacted_spec h.cap ?_).2
    have hlarge := hover.2
    rw [hcount, Nat.mul_comm] at hlarge
    rwa [List.length_append]
  · rw [if_neg hover, List.length_append, ← hcount, Nat.mul_comm]
    exact Nat.not_lt.mp fun hlarge => hover ⟨hpending, hlarge⟩

/-- The file is what re-opens the screen and the end of what was written. -/
def TailOf (written file : List UInt8) : Prop :=
  ∃ opener dropped kept, Opener opener ∧ written = dropped ++ kept ∧ file = opener ++ kept

theorem TailOf.append (h : TailOf written file) (more : List UInt8) :
    TailOf (written ++ more) (file ++ more) := by
  obtain ⟨opener, dropped, kept, hopener, rfl, rfl⟩ := h
  exact ⟨opener, dropped, kept ++ more, hopener, List.append_assoc .., List.append_assoc ..⟩

theorem TailOf.rewritten (h : TailOf written file)
    (hcap : reopenerBytes ≤ cap) (hover : compactMultiple * cap < file.length) :
    TailOf written (compacted cap file) := by
  obtain ⟨opener, dropped, kept, hopener, rfl, rfl⟩ := h
  obtain ⟨hcut, -⟩ := compacted_spec hcap hover
  have hbehind : opener.length ≤ cutAt cap (opener ++ kept) := Nat.le_trans hopener.length_le hcut
  rw [compacted_eq, List.drop_append, List.drop_eq_nil_of_le hbehind, List.nil_append]
  refine ⟨_, dropped ++ kept.take (cutAt cap (opener ++ kept) - opener.length), _, opener_reopenSequence _ _, ?_, rfl⟩
  rw [List.append_assoc, List.take_append_drop]

theorem TailOf.flush (h : TailOf written file) (hsound : w.Sound file) :
    TailOf (written ++ w.pending) (w.flush file).2 := by
  by_cases hpending : w.pending = []
  · rw [w.flush_nil hpending, hpending, List.append_nil]
    exact h
  · obtain ⟨-, -, -, hfile⟩ := hsound.flush hpending
    rw [hfile]
    by_cases hover : w.Rewrites
    · rw [if_pos hover]
      refine (h.append w.pending).rewritten hsound.cap ?_
      have hlarge := hover.2
      have hcounts := hsound.counts
      rw [List.length_append, Nat.mul_comm]
      omega
    · rw [if_neg hover]
      exact h.append w.pending

/-- The rewrite of a flush, if it makes one, cuts at a clean place. -/
def Writer.CutsCleanly (w : Writer) (file : List UInt8) : Prop :=
  w.Rewrites → CleanCut ((file ++ w.pending).take (cutAt w.cap (file ++ w.pending)))
    ((file ++ w.pending).drop (cutAt w.cap (file ++ w.pending)))

/-- Whatever comes after them, as long as it is well formed: a terminal that
read the file is where it would be had it read all that was written. -/
def ShowsSame (written file : List UInt8) : Prop :=
  ∀ after, init.Regular (written ++ after) →
    init.Regular (file ++ after) ∧ init.read (file ++ after) = init.read (written ++ after)

theorem ShowsSame.append (h : ShowsSame written file) (more : List UInt8) :
    ShowsSame (written ++ more) (file ++ more) := by
  intro after hregular
  rw [List.append_assoc] at hregular ⊢
  rw [List.append_assoc]
  exact h (more ++ after) hregular

theorem ShowsSame.rewritten (h : ShowsSame written file)
    (hclean : CleanCut (file.take (cutAt cap file)) (file.drop (cutAt cap file))) :
    ShowsSame written (compacted cap file) := by
  intro after hregular
  obtain ⟨hfile, hread⟩ := h after hregular
  have hsplit : file.take (cutAt cap file) ++ ((file.drop (cutAt cap file)).take altPeekBytes ++
      ((file.drop (cutAt cap file)).drop altPeekBytes ++ after)) = file ++ after := by
    rw [← List.append_assoc (List.take altPeekBytes _), List.take_append_drop, ← List.append_assoc,
      List.take_append_drop]
  have hpeek : CleanCut (file.take (cutAt cap file)) ((file.drop (cutAt cap file)).take altPeekBytes) := by
    rw [CleanCut, List.take_take]
    exact hclean
  obtain ⟨hheld, hsame⟩ := reopen_sound (hsplit ▸ hfile) hpeek
  have hcompacted : compacted cap file ++ after = (reopenSequence (file.take (cutAt cap file))
      ((file.drop (cutAt cap file)).take altPeekBytes)).getD [] ++ ((file.drop (cutAt cap file)).take altPeekBytes ++
        ((file.drop (cutAt cap file)).drop altPeekBytes ++ after)) := by
    rw [compacted_eq, List.append_assoc, ← List.append_assoc (List.take altPeekBytes _), List.take_append_drop]
  rw [hcompacted]
  exact ⟨hheld, hsame.trans (hsplit ▸ hread)⟩

theorem ShowsSame.flush (h : ShowsSame written file) (hsound : w.Sound file)
    (hclean : w.CutsCleanly file) : ShowsSame (written ++ w.pending) (w.flush file).2 := by
  by_cases hpending : w.pending = []
  · rw [w.flush_nil hpending, hpending, List.append_nil]
    exact h
  · obtain ⟨-, -, -, hfile⟩ := hsound.flush hpending
    rw [hfile]
    by_cases hover : w.Rewrites
    · rw [if_pos hover]
      exact (h.append w.pending).rewritten (hclean hover)
    · rw [if_neg hover]
      exact h.append w.pending

/-! ## §4 Runs -/

/-- What is asked of a cut, where cuts are held to be clean. -/
def Recording.Clean (r : Recording) : JournalCall → Prop
  | .openEntry _ _ | .append _ => True
  | .sync | .head | .close =>
    match r.store.writer with
    | none => True
    | some w => w.CutsCleanly (r.store.files w.path)

section

variable {dir sessionId : String} {clean : Prop} {path : String} {cap : Nat} {r : Recording} {w : Writer}
  {written : List UInt8}
variable {P Q : Writer → List UInt8 → Prop}
variable {call : JournalCall} {first rest : List JournalCall}

/-- In a life: its writer, and what of all that was appended it has written
out. -/
structure Writing (clean : Prop) (path : String) (cap : Nat) (r : Recording) (w : Writer) (written : List UInt8) :
    Prop where
  writer : r.store.writer = some w
  path_eq : w.path = path
  cap_eq : w.cap = cap
  sound : w.Sound (r.store.files path)
  appended : r.appended = written ++ w.pending
  tail : TailOf written (r.store.files path)
  shows : clean → ShowsSame written (r.store.files path)
  flushed : w.pending = [] → w.flushedEnd = r.past
  ending : w.pending ≠ [] → w.pendingEnd = r.past

/-- Between lives. -/
structure Closed (clean : Prop) (path : String) (r : Recording) : Prop where
  writer : r.store.writer = none
  tail : TailOf r.appended (r.store.files path)
  shows : clean → ShowsSame r.appended (r.store.files path)

theorem Closed.opened (h : Closed clean (journalPath dir sessionId) r) (hsession : sessionId ≠ "")
    (hcap : reopenerBytes ≤ cap) (start : Nat) : ∃ w, Writing clean (journalPath dir sessionId) cap
      (r.step dir sessionId (.openEntry cap start)) w r.appended ∧ w.pending = [] := by
  have hpos : ¬ (cap = 0 ∨ sessionId = "") := by
    rintro (rfl | hempty)
    · exact absurd hcap (by decide)
    · exact hsession hempty
  have hstore : r.store.openEntry dir sessionId cap =
      { r.store with writer := some ⟨journalPath dir sessionId, cap, false, 0, [], 0, 0, 0⟩ } := if_neg hpos
  refine ⟨⟨journalPath dir sessionId, cap, false, 0, [], 0, 0, 0⟩, ?_, rfl⟩
  simp only [Recording.step, hstore]
  refine ⟨rfl, rfl, rfl, ⟨hcap, rfl, Nat.zero_le _, ?_⟩, (List.append_nil _).symm, h.tail, h.shows, fun _ => rfl, ?_⟩
  · intro hhandle
    cases hhandle
  · intro hpending
    exact absurd rfl hpending

section

variable (h : Writing clean path cap r w written)
include h

theorem Writing.append (chunk : List UInt8) :
    ∃ w', Writing clean path cap (r.step dir sessionId (.append chunk)) w' written ∧
      w'.pending = w.pending ++ chunk ∧ w'.onDisk = w.onDisk ∧
      (r.step dir sessionId (.append chunk)).store.files = r.store.files := by
  by_cases hchunk : chunk = []
  · subst hchunk
    have hstore : r.store.append [] (r.next + 0) = r.store := rfl
    refine ⟨w, ?_, (List.append_nil _).symm, rfl, rfl⟩
    simp only [Recording.step, List.length_nil, hstore, if_true, List.append_nil]
    exact ⟨h.writer, h.path_eq, h.cap_eq, h.sound, h.appended, h.tail, h.shows, h.flushed, h.ending⟩
  · have hstore : r.store.append chunk (r.next + chunk.length) = { r.store with writer := some { w with
        pending := w.pending ++ chunk, pendingEnd := r.next + chunk.length } } := by
      rw [JournalStore.append, if_neg hchunk, h.writer]
    refine ⟨{ w with pending := w.pending ++ chunk, pendingEnd := r.next + chunk.length }, ?_, rfl, rfl, ?_⟩
    · simp only [Recording.step, hstore, if_neg hchunk]
      refine ⟨rfl, h.path_eq, h.cap_eq, ⟨h.sound.cap, h.sound.floor, h.sound.counts, h.sound.handle⟩, ?_, h.tail, h.shows,
        ?_, fun _ => rfl⟩
      · rw [h.appended, List.append_assoc]
      · intro hpending
        exact absurd (List.append_eq_nil_iff.mp hpending).2 hchunk
    · simp only [Recording.step, hstore]

theorem Writing.synced : r.store.sync =
    ⟨some (w.flush (r.store.files path)).1, Function.update r.store.files path (w.flush (r.store.files path)).2⟩ := by
  rw [JournalStore.sync, h.writer, ← h.path_eq]

theorem Writing.sync (hclean : clean → w.CutsCleanly (r.store.files path)) :
    Writing clean path cap { r with store := r.store.sync } (w.flush (r.store.files path)).1 (written ++ w.pending) ∧
      (w.flush (r.store.files path)).1.pending = [] ∧ r.store.sync.files path = (w.flush (r.store.files path)).2 := by
  have hfile : r.store.sync.files path = (w.flush (r.store.files path)).2 := by
    rw [h.synced]
    exact Function.update_self ..
  have htail := h.tail.flush h.sound
  have hshows : clean → ShowsSame (written ++ w.pending) (w.flush (r.store.files path)).2 :=
    fun hc => (h.shows hc).flush h.sound (hclean hc)
  by_cases hpending : w.pending = []
  · have hnil := w.flush_nil hpending (r.store.files path)
    rw [← hfile] at htail hshows
    have hsound : (w.flush (r.store.files path)).1.Sound (r.store.sync.files path) := by
      rw [hfile, hnil]
      exact h.sound
    refine ⟨⟨by rw [h.synced], ?_, ?_, hsound, ?_, htail, hshows, ?_, ?_⟩, by rw [hnil]; exact hpending, hfile⟩
    · rw [hnil]
      exact h.path_eq
    · rw [hnil]
      exact h.cap_eq
    · rw [hnil, hpending, List.append_nil, List.append_nil, h.appended, hpending, List.append_nil]
    · intro _
      rw [hnil]
      exact h.flushed hpending
    · grind
  · obtain ⟨hsound, -, hcap, -⟩ := h.sound.flush hpending
    obtain ⟨hpath, hnone, hend⟩ := w.flush_writer hpending (r.store.files path)
    rw [← hfile] at htail hshows hsound
    refine ⟨⟨by rw [h.synced], hpath.trans h.path_eq, hcap.trans h.cap_eq, hsound, ?_, htail, hshows, ?_, ?_⟩, hnone, hfile⟩
    · rw [hnone, List.append_nil]
      exact h.appended
    · intro _
      exact hend.trans (h.ending hpending)
    · intro hmore
      exact absurd hnone hmore

theorem Writing.cleanly (hflush : call = .sync ∨ call = .head)
    (hclean : clean → r.Clean call) (hc : clean) : w.CutsCleanly (r.store.files path) := by
  have hcut := hclean hc
  rw [← h.path_eq]
  rcases hflush with rfl | rfl
  · simpa only [Recording.Clean, h.writer] using hcut
  · simpa only [Recording.Clean, h.writer] using hcut

end

/-- Appends and flushes. -/
def Within (calls : List JournalCall) : Prop :=
  ∀ call ∈ calls, (∃ chunk, call = .append chunk) ∨ call = .sync ∨ call = .head

/-- These calls lead a life from where `P` holds of its writer and its file
to where `Q` does. -/
def Leads (dir sessionId : String) (clean : Prop) (path : String) (cap : Nat) (P Q : Writer → List UInt8 → Prop)
    (calls : List JournalCall) : Prop :=
  ∀ r w written, Writing clean path cap r w written → P w (r.store.files path) →
    Meets (Recording.step dir sessionId) (fun r call => clean → r.Clean call) r calls →
    ∃ w' written', Writing clean path cap (run (Recording.step dir sessionId) r calls) w' written' ∧
      Q w' ((run (Recording.step dir sessionId) r calls).store.files path)

theorem Leads.comp {R : Writer → List UInt8 → Prop}
    (h : Leads dir sessionId clean path cap P Q first) (hrest : Leads dir sessionId clean path cap Q R rest) :
    Leads dir sessionId clean path cap P R (first ++ rest) := by
  intro r w written hw hP hclean
  obtain ⟨hfirst, hnext⟩ := meets_append.mp hclean
  obtain ⟨w', written', hw', hQ⟩ := h r w written hw hP hfirst
  rw [run_append]
  exact hrest _ w' written' hw' hQ hnext

theorem leads_append (chunk : List UInt8)
    (h : ∀ w w' file, w'.pending = w.pending ++ chunk → w'.onDisk = w.onDisk → P w file → Q w' file) :
    Leads dir sessionId clean path cap P Q [.append chunk] := by
  intro r w written hw hP _
  obtain ⟨w', hw', hpending, hdisk, hfiles⟩ := @Writing.append dir sessionId _ _ _ _ _ _ hw chunk
  refine ⟨w', written, hw', ?_⟩
  rw [run_cons, run_nil, hfiles]
  exact h w w' _ hpending hdisk hP

theorem leads_flush (hcall : call = .sync ∨ call = .head)
    (h : ∀ w file, w.Sound file → w.cap = cap → P w file → Q (w.flush file).1 (w.flush file).2) :
    Leads dir sessionId clean path cap P Q [call] := by
  intro r w written hw hP hclean
  have hstep : r.step dir sessionId call = { r with store := r.store.sync } := by
    rcases hcall with rfl | rfl
    · rfl
    · rfl
  obtain ⟨hw', -, hfile⟩ := hw.sync (hw.cleanly hcall hclean.1)
  refine ⟨_, _, by rw [run_cons, run_nil, hstep]; exact hw', ?_⟩
  rw [run_cons, run_nil, hstep]
  rw [hfile]
  exact h w _ hw.sound hw.cap_eq hP

theorem leads_within
    (happend : ∀ w w' file chunk, w'.pending = w.pending ++ chunk → w'.onDisk = w.onDisk → P w file → P w' file)
    (hflush : ∀ w file, w.Sound file → w.cap = cap → P w file → P (w.flush file).1 (w.flush file).2)
    {calls : List JournalCall} (hcalls : Within calls) : Leads dir sessionId clean path cap P P calls := by
  induction calls with
  | nil => exact fun r w written hw hP _ => ⟨w, written, hw, hP⟩
  | cons call calls ih =>
    have hrest := ih fun c hc => hcalls c (List.mem_cons_of_mem _ hc)
    rcases hcalls call List.mem_cons_self with ⟨chunk, rfl⟩ | hsync
    · exact (leads_append chunk fun w w' file => happend w w' file chunk).comp hrest
    · exact (leads_flush hsync hflush).comp hrest

/-- The file is counted right, or will be by the next flush. -/
def DueCount (w : Writer) (file : List UInt8) : Prop := w.pending ≠ [] ∨ w.onDisk = file.length

def Counted (w : Writer) (file : List UInt8) : Prop := w.onDisk = file.length

/-- The file is within its bound, or will be by the next flush. -/
def Bounded (cap : Nat) (w : Writer) (file : List UInt8) : Prop :=
  w.onDisk = file.length ∧ (w.pending ≠ [] ∨ file.length ≤ compactMultiple * cap)

theorem DueCount.append {w w' : Writer} {file chunk : List UInt8} (hpending : w'.pending = w.pending ++ chunk)
    (hdisk : w'.onDisk = w.onDisk) (h : DueCount w file) : DueCount w' file := by
  rcases h with hmore | hcount
  · left
    rw [hpending]
    intro hnone
    exact hmore (List.append_eq_nil_iff.mp hnone).1
  · right
    rw [hdisk, hcount]

theorem DueCount.flush {w : Writer} {file : List UInt8} (h : DueCount w file) (hsound : w.Sound file) :
    Counted (w.flush file).1 (w.flush file).2 := by
  by_cases hpending : w.pending = []
  · rw [Counted, w.flush_nil hpending]
    exact h.resolve_left fun hmore => hmore hpending
  · exact (hsound.flush hpending).2.1

theorem Bounded.append {w w' : Writer} {file chunk : List UInt8} (hpending : w'.pending = w.pending ++ chunk)
    (hdisk : w'.onDisk = w.onDisk) (h : Bounded cap w file) : Bounded cap w' file := by
  refine ⟨hdisk.trans h.1, h.2.imp_left fun hmore hnone => hmore ?_⟩
  rw [hpending] at hnone
  exact (List.append_eq_nil_iff.mp hnone).1

theorem Bounded.flush {w : Writer} {file : List UInt8} (h : Bounded cap w file) (hsound : w.Sound file)
    (hcap : w.cap = cap) : Bounded cap (w.flush file).1 (w.flush file).2 ∧
      (w.flush file).2.length ≤ compactMultiple * cap := by
  by_cases hpending : w.pending = []
  · rw [w.flush_nil hpending]
    exact ⟨h, h.2.resolve_left fun hmore => hmore hpending⟩
  · have hbound := hsound.bounded hpending h.1
    rw [hcap] at hbound
    exact ⟨⟨(hsound.flush hpending).2.1, .inr hbound⟩, hbound⟩

theorem leads_dueCount {calls : List JournalCall} (hcalls : Within calls) :
    Leads dir sessionId clean path cap DueCount DueCount calls :=
  leads_within (P := DueCount) (fun _ _ _ _ => DueCount.append) (fun _ _ hsound _ h => .inr (h.flush hsound)) hcalls

theorem leads_counted {calls : List JournalCall} (hcalls : Within calls) :
    Leads dir sessionId clean path cap Counted Counted calls :=
  leads_within (P := Counted) (fun _ _ _ _ _ hdisk h => hdisk.trans h)
    (fun _ _ hsound _ h => DueCount.flush (.inr h) hsound) hcalls

theorem leads_bounded {calls : List JournalCall} (hcalls : Within calls) :
    Leads dir sessionId clean path cap (Bounded cap) (Bounded cap) calls :=
  leads_within (P := Bounded cap) (fun _ _ _ _ => Bounded.append) (fun _ _ hsound hcap h => (h.flush hsound hcap).1) hcalls

theorem Within.append (h : Within (first ++ rest)) : Within first ∧ Within rest :=
  List.forall_mem_append.mp h

/-- Once a flush has written, and more was appended, the bound holds of every
flush to come. -/
theorem leads_writesAgain {calls : List JournalCall} (hcalls : Within calls) (hagain : WritesAgain calls) :
    Leads dir sessionId clean path cap (fun _ _ => True) (Bounded cap) calls := by
  obtain ⟨first, middle, last, rfl, ⟨chunk, hchunk, hfirst⟩, hmiddle, ⟨chunk', hchunk', hlast⟩⟩ := hagain
  obtain ⟨call, hcall, hmem⟩ : ∃ call, (call = .sync ∨ call = .head) ∧ call ∈ middle := by
    rcases hmiddle with hsync | hhead
    · exact ⟨_, .inl rfl, hsync⟩
    · exact ⟨_, .inr rfl, hhead⟩
  obtain ⟨a, b, rfl⟩ := List.append_of_mem hfirst
  obtain ⟨c, d, rfl⟩ := List.append_of_mem hmem
  obtain ⟨e, f, rfl⟩ := List.append_of_mem hlast
  rw [List.append_cons a, List.append_cons c, List.append_cons e] at hcalls ⊢
  obtain ⟨hab, hcdef⟩ := hcalls.append
  obtain ⟨hcd, hef⟩ := hcdef.append
  obtain ⟨ha, hb⟩ := hab.append
  obtain ⟨hc, hd⟩ := hcd.append
  obtain ⟨he, hf⟩ := hef.append
  have happended : Leads dir sessionId clean path cap (fun _ _ => True) DueCount [.append chunk] :=
    leads_append chunk fun w w' file hpending _ _ => .inl (by simp [hpending, hchunk])
  have hagain : Leads dir sessionId clean path cap Counted (Bounded cap) [.append chunk'] :=
    leads_append chunk' fun w w' file hpending hdisk h => ⟨hdisk.trans h, .inl (by simp [hpending, hchunk'])⟩
  have hflushed : Leads dir sessionId clean path cap DueCount Counted [call] :=
    leads_flush hcall fun w file hsound _ h => h.flush hsound
  have hbefore : Leads dir sessionId clean path cap (fun _ _ => True) (fun _ _ => True) a :=
    leads_within (P := fun _ _ => True) (fun _ _ _ _ _ _ _ => trivial) (fun _ _ _ _ _ => trivial) ha.append.1
  refine ((hbefore.comp happended).comp (leads_dueCount hb)).comp
    ((((leads_dueCount hc.append.1).comp hflushed).comp (leads_counted hd)).comp
      ((((leads_counted he.append.1).comp hagain).comp (leads_bounded hf))))

/-! ## §5 Lives -/

theorem closed_blank : Closed clean path .blank :=
  ⟨rfl, ⟨[], [], [], .inl rfl, rfl, rfl⟩, fun _ _ hregular => ⟨hregular, rfl⟩⟩

theorem Writing.calls {calls : List JournalCall} (h : Writing clean path cap r w written) (hcalls : Within calls)
    (hclean : Meets (Recording.step dir sessionId) (fun r call => clean → r.Clean call) r calls) :
    ∃ w' written', Writing clean path cap (run (Recording.step dir sessionId) r calls) w' written' := by
  have hkept : Leads dir sessionId clean path cap (fun _ _ => True) (fun _ _ => True) calls :=
    leads_within (P := fun _ _ => True) (fun _ _ _ _ _ _ _ => trivial) (fun _ _ _ _ _ => trivial) hcalls
  obtain ⟨w', written', hw', -⟩ := hkept r w written h trivial hclean
  exact ⟨w', written', hw'⟩

theorem Writing.close (h : Writing clean path cap r w written) (hclean : clean → w.CutsCleanly (r.store.files path)) :
    Closed clean path { r with store := r.store.close } := by
  obtain ⟨hsynced, -, -⟩ := h.sync hclean
  have htail := hsynced.tail
  have hshows := hsynced.shows
  rw [← h.appended] at htail hshows
  exact ⟨rfl, htail, hshows⟩

theorem Closed.ended (h : Closed clean (journalPath dir sessionId) r) (hsession : sessionId ≠ "") {life : JournalLife}
    (hcap : reopenerBytes ≤ life.cap) (hcalls : Within life.calls)
    (hclean : Meets (Recording.step dir sessionId) (fun r call => clean → r.Clean call) r life.ended) :
    Closed clean (journalPath dir sessionId) (run (Recording.step dir sessionId) r life.ended) := by
  obtain ⟨w, hw, -⟩ := h.opened hsession hcap life.start
  obtain ⟨hwithin, hclose, -⟩ := meets_append.mp hclean.2
  obtain ⟨w', written', hw'⟩ := hw.calls hcalls hwithin
  rw [JournalLife.ended, run_cons, run_append]
  exact hw'.close (hw'.cleanly (.inl rfl) hclose)

theorem Closed.past (h : Closed clean (journalPath dir sessionId) r) (hsession : sessionId ≠ "") {past : List JournalLife}
    (hpast : ∀ life ∈ past, reopenerBytes ≤ life.cap ∧ Within life.calls)
    (hclean : Meets (Recording.step dir sessionId) (fun r call => clean → r.Clean call) r (past.flatMap JournalLife.ended)) :
    Closed clean (journalPath dir sessionId) (run (Recording.step dir sessionId) r (past.flatMap JournalLife.ended)) := by
  induction past generalizing r with
  | nil => exact h
  | cons life past ih =>
    obtain ⟨hcap, hcalls⟩ := hpast life List.mem_cons_self
    rw [List.flatMap_cons] at hclean ⊢
    obtain ⟨hlife, hrest⟩ := meets_append.mp hclean
    rw [run_append]
    exact ih (h.ended hsession hcap hcalls hlife) (fun l hl => hpast l (List.mem_cons_of_mem _ hl)) hrest

end

/-- The recording of lives that are over, and of one that is on. -/
def recorded (dir sessionId : String) (past : List JournalLife) (life : JournalLife) : Recording :=
  run (Recording.step dir sessionId) .blank (past.flatMap JournalLife.ended ++ .openEntry life.cap life.start :: life.calls)

/-- Every flush of those lives, and one now, cuts at a clean place. -/
def CleanLives (dir sessionId : String) (past : List JournalLife) (life : JournalLife) : Prop :=
  Meets (Recording.step dir sessionId) Recording.Clean .blank
    (past.flatMap JournalLife.ended ++ .openEntry life.cap life.start :: (life.calls ++ [.sync]))

section

variable {dir sessionId : String} {clean : Prop} {past : List JournalLife} {life : JournalLife}

theorem writing_recorded (hsession : sessionId ≠ "")
    (hlives : ∀ l ∈ life :: past, reopenerBytes ≤ l.cap ∧ Within l.calls)
    (hclean : Meets (Recording.step dir sessionId) (fun r call => clean → r.Clean call) .blank
      (past.flatMap JournalLife.ended ++ .openEntry life.cap life.start :: life.calls)) :
    ∃ w written, Writing clean (journalPath dir sessionId) life.cap (recorded dir sessionId past life) w written ∧
      (WritesAgain life.calls →
        Bounded life.cap w ((recorded dir sessionId past life).store.files (journalPath dir sessionId))) := by
  obtain ⟨hpast, hlife⟩ := meets_append.mp hclean
  obtain ⟨hcap, hcalls⟩ := hlives life List.mem_cons_self
  have hclosed := closed_blank.past hsession (fun l hl => hlives l (List.mem_cons_of_mem _ hl)) hpast
  obtain ⟨w, hw, -⟩ := hclosed.opened hsession hcap life.start
  rw [recorded, run_append, run_cons]
  by_cases hagain : WritesAgain life.calls
  · obtain ⟨w', written', hw', hbounded⟩ := leads_writesAgain hcalls hagain _ w _ hw trivial hlife.2
    exact ⟨w', written', hw', fun _ => hbounded⟩
  · obtain ⟨w', written', hw'⟩ := hw.calls hcalls hlife.2
    exact ⟨w', written', hw', fun h => absurd h hagain⟩

end

theorem meets_always {σ ω : Type} {step : σ → ω → σ} {ok : σ → ω → Prop} (h : ∀ s op, ok s op) (s : σ) (ops : List ω) :
    Meets step ok s ops := by
  induction ops generalizing s with
  | nil => exact trivial
  | cons op ops ih => exact ⟨h s op, ih _⟩

/-- A flush at any point of any lives. The file is a re-opener, if there is
one, and the end of all that was ever appended; the head is just past the
last byte the life appended; the file is within twice the cap, but for the
first flush of a life that writes; and where every cut is clean, it shows the
screen that all of it would. -/
theorem journal_across_lives {dir sessionId : String} (hsession : sessionId ≠ "") {past : List JournalLife}
    {life : JournalLife} (hlives : ∀ l ∈ life :: past, reopenerBytes ≤ l.cap ∧ Within l.calls) :
    let r := recorded dir sessionId past life
    let flushed := r.store.sync
    let file := flushed.files (journalPath dir sessionId)
    TailOf r.appended file ∧
    r.store.head = (flushed, some r.past) ∧
    (WritesAgain life.calls → file.length ≤ compactMultiple * life.cap) ∧
    (init.Regular r.appended → CleanLives dir sessionId past life →
      (init.read file).alt = (init.read r.appended).alt) := by
  intro r flushed file
  obtain ⟨w, written, hw, hbounded⟩ := @writing_recorded dir sessionId False past life hsession hlives
    (meets_always (fun _ _ hnone => hnone.elim) _ _)
  obtain ⟨hsynced, hnone, hfile⟩ := hw.sync fun hfalse => hfalse.elim
  refine ⟨?_, ?_, fun hagain => ?_, fun hregular hclean => ?_⟩
  · have htail := hsynced.tail
    rwa [← hw.appended] at htail
  · have hwriter : r.store.sync.writer = some (w.flush (r.store.files (journalPath dir sessionId))).1 := hsynced.writer
    have hflushed := hsynced.flushed hnone
    rw [JournalStore.head, hwriter]
    exact Prod.ext rfl (congrArg some hflushed)
  · have hwithin := ((hbounded hagain).flush hw.sound hw.cap_eq).2
    rwa [← hfile] at hwithin
  · rw [CleanLives, ← List.cons_append, ← List.append_assoc] at hclean
    obtain ⟨hlivesClean, hflush, -⟩ := meets_append.mp hclean
    obtain ⟨w', written', hw', -⟩ := @writing_recorded dir sessionId True past life hsession hlives
      (hlivesClean.weaken (fun _ => True) (fun _ _ hop _ => ⟨fun _ => hop, trivial⟩) trivial)
    obtain ⟨hsynced', -, -⟩ := hw'.sync (hw'.cleanly (.inl rfl) fun _ => hflush)
    have hshows := hsynced'.shows trivial []
    rw [← hw'.appended, List.append_nil, List.append_nil] at hshows
    exact congrArg Screen.alt (hshows hregular).2

theorem journal_across_lives_twice :
    ((recorded "journals" "s" [] ⟨8, 0, [.append [0x61], .sync, .append [0x62]]⟩).store.sync.files
      (journalPath "journals" "s")).length ≤ compactMultiple * 8 :=
  (journal_across_lives (by decide) (by
    intro l hl
    obtain rfl := List.mem_singleton.mp hl
    simp [Within, reopenerBytes])).2.2.1
    ⟨[.append [0x61]], [.sync], [.append [0x62]], rfl, ⟨_, by decide, List.mem_singleton.mpr rfl⟩,
      .inl (List.mem_singleton.mpr rfl), ⟨_, by decide, List.mem_singleton.mpr rfl⟩⟩

/-- A life that fills the file and closes, and one that appends a byte. -/
def filled : JournalLife := ⟨8, 0, [.append (List.replicate 16 0x61)]⟩

def brief : JournalLife := ⟨8, 0, [.append [0x61]]⟩

/-- A line of text, and a switch to the alternate screen with a long list of
parameters behind the one that counts. -/
def longSwitch : List UInt8 :=
  List.replicate 70 0x61 ++ ([esc, 0x5B, 0x3F, 0x31, 0x30, 0x34, 0x39] ++ (List.replicate 83 0x3B ++ [0x68]))

def switching : JournalLife := ⟨80, 0, [.append longSwitch]⟩

/-- The first flush of a life does not know what is on disk; and a cut inside
a control sequence that goes on for more than the scan peeks at is not made
good, though it is inside no string sequence. -/
theorem journal_outgrows :
    ((recorded "journals" "s" [filled] brief).store.sync.files (journalPath "journals" "s")).length = 17 ∧
    (init.Regular longSwitch ∧ (init.read longSwitch).alt = true ∧
      (init.read ((recorded "journals" "s" [] switching).store.sync.files (journalPath "journals" "s"))).alt = false) := by
  exact ⟨by decide +kernel, by decide +kernel, by decide +kernel, by decide +kernel⟩

end SlopDesk.Superd
