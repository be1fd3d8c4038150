/-
SlopDesk.Superd.TranscriptTheorems — the transcript of a pane misses
nothing while the lives of its id keep out of each other's way.

Two invariants carry a run. `Filed` is about bytes: the entry's pending
bytes are its opener's, they continue what of that life is in the file,
and nothing that was appended is gone. `Seated` is about who may still
publish: a life that was not released is being spawned, has the pane, or
has a reaper reading it out, and as long as its pump runs the entry is its
own.
-/
import Mathlib.Data.List.Basic
import SlopDesk.Superd.Transcript

namespace SlopDesk.Superd

open SlopDesk.Base

namespace Registry

variable {life : Nat} {w : Writer} {l : Life} {s' : Registry}

/-! ## §1 Tagged bytes -/

@[simp] theorem bytesOf_append (life : Nat) (a b : List (Nat × UInt8)) :
    bytesOf life (a ++ b) = bytesOf life a ++ bytesOf life b := by
  simp [bytesOf]

theorem bytesOf_own {bytes : List (Nat × UInt8)} (h : ∀ b ∈ bytes, b.1 = life) :
    bytesOf life bytes = bytes.map (·.2) := by
  rw [bytesOf, List.filter_eq_self.mpr (by simpa using h)]

theorem bytesOf_other {bytes : List (Nat × UInt8)} (h : ∀ b ∈ bytes, b.1 ≠ life) :
    bytesOf life bytes = [] := by
  rw [bytesOf, List.filter_eq_nil_iff.mpr (by simpa using h), List.map_nil]

theorem map_tag (life : Nat) (chunk : List UInt8) : (chunk.map ((life, ·))).map (·.2) = chunk := by
  simp [List.map_map, Function.comp_def]

/-! ## §2 Where the bytes are -/

/-- The entry `life` opened: what is pending continues what is written. -/
structure Entry (s : Registry) (life : Nat) (l : Life) (w : Writer) : Prop where
  asked : l.request.asked = some w.path
  pending : w.pending = s.buffered.map (·.2)
  own : ∀ b ∈ s.buffered, b.1 = life
  whole : bytesOf life (s.written w.path) ++ w.pending = l.published
  flushed : w.flushedEnd = (bytesOf life (s.written w.path)).length
  ending : w.pending ≠ [] → w.pendingEnd = l.published.length

/-- What holds of the bytes. -/
structure Filed (files : String → List UInt8) (s : Registry) : Prop where
  vacant : s.store.writer = none → s.opener = none ∧ s.buffered = []
  entry : ∀ w, s.store.writer = some w → ∃ (life : Nat) (l : Life),
    s.opener = some life ∧ s.lives[life]? = some l ∧ Entry s life l w
  tags : ∀ path, ∀ b ∈ s.written path, ∃ l, s.lives[b.1]? = some l ∧ l.request.asked = some path
  holds : ∀ (life : Nat) (l : Life), s.lives[life]? = some l → l.ring.Holds l.published
  due : ∀ (life : Nat) (l : Life), s.lives[life]? = some l →
    l.due <+: l.published ∧ (l.released = false → l.due = l.published)
  kept : ∀ (life : Nat) (l : Life) (path : String), s.lives[life]? = some l → l.request.asked = some path →
    l.due <+: bytesOf life (s.journaled path) ∧ bytesOf life (s.journaled path) <+: l.published
  files : ∀ path, Compaction (files path ++ (s.written path).map (·.2)) (s.store.files path)

variable {files : String → List UInt8} {s : Registry}

theorem journaled_entry (hw : s.store.writer = some w) (path : String) :
    s.journaled path = s.written path ++ if w.path = path then s.buffered else [] := by
  simp [journaled, hw]

theorem Entry.journaled (h : Entry s life l w)
    (hw : s.store.writer = some w) : bytesOf life (s.journaled w.path) = l.published := by
  rw [journaled_entry hw, if_pos rfl, bytesOf_append, bytesOf_own h.own, ← h.pending, h.whole]

/-- Nothing is in a journal of a life that is not there, or that asked for
another. -/
theorem Filed.stranger (h : Filed files s) {path : String}
    (hlife : ∀ l, s.lives[life]? = some l → l.request.asked ≠ some path) :
    bytesOf life (s.journaled path) = [] := by
  refine bytesOf_other fun b hb heq => ?_
  rcases List.mem_append.mp hb with hwritten | hbuffered
  · obtain ⟨l, hl, hasked⟩ := h.tags path b hwritten
    exact hlife l (heq ▸ hl) hasked
  · cases hw : s.store.writer with
    | none => simp [hw] at hbuffered
    | some w =>
      obtain ⟨opener, l, -, hl, hentry⟩ := h.entry w hw
      by_cases hpath : w.path = path
      · have hmem : b ∈ s.buffered := by simpa [hw, hpath] using hbuffered
        have htag := hentry.own b hmem
        exact hlife l (by rw [← heq, htag]; exact hl) (hpath ▸ hentry.asked)
      · simp [hw, hpath] at hbuffered

/-- The life as far as its bytes go; a release is all that may change. -/
structure Kin (l l' : Life) : Prop where
  request : l'.request = l.request
  holds : l.ring.Holds l.published → l'.ring.Holds l'.published
  published : l'.published = l.published
  due : l'.due = l.due
  released : l'.released = false → l.released = false

theorem Filed.frame (h : Filed files s) {g : Nat → Life → Life}
    (hkin : ∀ life l, Kin l (g life l)) (hlives : ∀ life, s'.lives[life]? = (s.lives[life]?).map (g life))
    (hstore : s'.store = s.store) (hopener : s'.opener = s.opener) (hbuffered : s'.buffered = s.buffered)
    (hwritten : s'.written = s.written) : Filed files s' := by
  have hforth {life : Nat} {l : Life} (hl : s.lives[life]? = some l) :
      s'.lives[life]? = some (g life l) := by rw [hlives, hl, Option.map_some]
  have hback {life : Nat} {l' : Life} (hl : s'.lives[life]? = some l') :
      ∃ l, s.lives[life]? = some l ∧ Kin l l' := by
    grind
  have hjournaled (path : String) : s'.journaled path = s.journaled path := by
    rw [journaled, journaled, hwritten, hstore, hbuffered]
  refine ⟨?_, ?_, ?_, ?_, ?_, ?_, ?_⟩
  · rw [hstore, hopener, hbuffered]
    exact h.vacant
  · intro w hw
    rw [hstore] at hw
    obtain ⟨life, l, hlife, hl, hentry⟩ := h.entry w hw
    have hk := hkin life l
    refine ⟨life, g life l, hopener.trans hlife, hforth hl, ?_, ?_, ?_, ?_, ?_, ?_⟩
    · rw [hk.request]
      exact hentry.asked
    · rw [hbuffered]
      exact hentry.pending
    · rw [hbuffered]
      exact hentry.own
    · rw [hwritten, hk.published]
      exact hentry.whole
    · rw [hwritten]
      exact hentry.flushed
    · rw [hk.published]
      exact hentry.ending
  · rw [hwritten]
    intro path b hb
    obtain ⟨l, hl, hasked⟩ := h.tags path b hb
    exact ⟨g b.1 l, hforth hl, by rw [(hkin b.1 l).request]; exact hasked⟩
  · intro life l' hl'
    obtain ⟨l, hl, hk⟩ := hback hl'
    exact hk.holds (h.holds life l hl)
  · intro life l' hl'
    obtain ⟨l, hl, hk⟩ := hback hl'
    rw [hk.due, hk.published]
    exact ⟨(h.due life l hl).1, fun hreleased => (h.due life l hl).2 (hk.released hreleased)⟩
  · intro life l' path hl' hasked
    obtain ⟨l, hl, hk⟩ := hback hl'
    rw [hk.request] at hasked
    rw [hk.due, hk.published, hjournaled]
    exact h.kept life l path hl hasked
  · rw [hwritten, hstore]
    exact h.files

theorem getElem?_modifyLife (s : Registry) (life : Nat) (f : Life → Life) (other : Nat) :
    (s.modifyLife life f).lives[other]? = (s.lives[other]?).map (if life = other then f else id) := by
  rw [modifyLife, List.getElem?_modify]
  by_cases hlife : life = other
  · simp [hlife]
  · simp [hlife]

theorem Filed.modifyLife (h : Filed files s) (life : Nat) {f : Life → Life} (hf : ∀ l, Kin l (f l)) :
    Filed files (s.modifyLife life f) := by
  refine h.frame (g := fun other => if life = other then f else id) ?_ (getElem?_modifyLife s life f)
    rfl rfl rfl rfl
  intro other l
  by_cases hlife : life = other
  · rw [if_pos hlife]
    exact hf l
  · rw [if_neg hlife]
    exact ⟨rfl, id, rfl, rfl, id⟩

theorem Filed.congr (h : Filed files s) (hlives : s'.lives = s.lives)
    (hstore : s'.store = s.store) (hopener : s'.opener = s.opener) (hbuffered : s'.buffered = s.buffered)
    (hwritten : s'.written = s.written) : Filed files s' :=
  h.frame (g := fun _ => id) (fun _ _ => ⟨rfl, id, rfl, rfl, id⟩) (fun _ => by rw [hlives, Option.map_id_apply])
    hstore hopener hbuffered hwritten

/-! ## §3 Flushes -/

theorem sync_vacant (hw : s.store.writer = none) : s.flush = s := by
  simp [flush, hw]

theorem journaled_flush (s : Registry) (path : String) : s.flush.journaled path = s.journaled path := by
  cases hw : s.store.writer with
  | none => rw [sync_vacant hw]
  | some w =>
    rw [journaled_entry hw]
    simp only [flush, hw, journaled, JournalStore.sync]
    by_cases hpath : w.path = path
    · subst hpath
      simp
    · grind

theorem Entry.flush (h : Entry s life l w) (hw : s.store.writer = some w) :
    Entry s.flush life l (w.flush (s.store.files w.path)).1 := by
  have hpath : (w.flush (s.store.files w.path)).1.path = w.path ∧
      (w.flush (s.store.files w.path)).1.pending = [] ∧
      (w.flush (s.store.files w.path)).1.flushedEnd = l.published.length := by
    by_cases hnil : w.pending = []
    · rw [Writer.flush_nil hnil]
      refine ⟨rfl, hnil, h.flushed.trans ?_⟩
      rw [← h.whole, hnil, List.append_nil]
    · obtain ⟨hp, hempty, hend⟩ := Writer.flush_writer hnil (s.store.files w.path)
      exact ⟨hp, hempty, hend.trans (h.ending hnil)⟩
  obtain ⟨hp, hempty, hend⟩ := hpath
  have hwritten : bytesOf life (s.flush.written w.path) = l.published := by
    simp only [Registry.flush, hw, Function.update_self]
    rw [bytesOf_append, bytesOf_own h.own, ← h.pending, h.whole]
  refine ⟨?_, ?_, ?_, ?_, ?_, fun hne => absurd hempty hne⟩
  · rw [hp]
    exact h.asked
  · simp [Registry.flush, hw, hempty]
  · simp [Registry.flush, hw]
  · rw [hp, hwritten, hempty, List.append_nil]
  · rw [hend, hp, hwritten]

theorem Filed.flush (h : Filed files s) : Filed files s.flush := by
  cases hw : s.store.writer with
  | none => rwa [sync_vacant hw]
  | some w =>
    obtain ⟨life, l, hlife, hl, hentry⟩ := h.entry w hw
    have hlives : s.flush.lives = s.lives := by simp [Registry.flush, hw]
    have hopener : s.flush.opener = s.opener := by simp [Registry.flush, hw]
    have hwriter : s.flush.store.writer = some (w.flush (s.store.files w.path)).1 := by
      simp [Registry.flush, hw, JournalStore.sync]
    have hwritten (path : String) : s.flush.written path =
        if path = w.path then s.written w.path ++ s.buffered else s.written path := by
      simp [Registry.flush, hw, Function.update_apply]
    refine ⟨?_, ?_, ?_, ?_, ?_, ?_, ?_⟩
    · grind
    · intro w' hw'
      obtain rfl := Option.some.inj (hwriter.symm.trans hw')
      exact ⟨life, l, hopener.trans hlife, by rw [hlives]; exact hl, hentry.flush hw⟩
    · intro path b hb
      rw [hlives]
      rw [hwritten] at hb
      split at hb
      · rename_i hpath
        subst hpath
        rcases List.mem_append.mp hb with hold | hnew
        · exact h.tags w.path b hold
        · exact ⟨l, by rw [hentry.own b hnew]; exact hl, hentry.asked⟩
      · exact h.tags path b hb
    · rw [hlives]
      exact h.holds
    · rw [hlives]
      exact h.due
    · intro life' l' path hl' hasked
      rw [hlives] at hl'
      rw [journaled_flush]
      exact h.kept life' l' path hl' hasked
    · intro path
      rw [hwritten]
      have hfile : s.flush.store.files path =
          if path = w.path then (w.flush (s.store.files w.path)).2 else s.store.files path := by
        simp [Registry.flush, hw, JournalStore.sync, Function.update_apply]
      rw [hfile]
      split
      · rename_i hpath
        subst hpath
        rw [List.map_append, ← List.append_assoc, ← hentry.pending]
        exact (h.files w.path).flush w
      · exact h.files path

@[simp] theorem closeJournal_lives (s : Registry) : s.closeJournal.lives = s.lives := by
  cases hw : s.store.writer <;> simp [Registry.closeJournal, Registry.flush, hw]

@[simp] theorem closeJournal_spawning (s : Registry) : s.closeJournal.spawning = s.spawning := by
  cases hw : s.store.writer <;> simp [Registry.closeJournal, Registry.flush, hw]

@[simp] theorem closeJournal_pane (s : Registry) : s.closeJournal.pane = s.pane := by
  cases hw : s.store.writer <;> simp [Registry.closeJournal, Registry.flush, hw]

@[simp] theorem closeJournal_reapers (s : Registry) : s.closeJournal.reapers = s.reapers := by
  cases hw : s.store.writer <;> simp [Registry.closeJournal, Registry.flush, hw]

theorem Filed.closeJournal (h : Filed files s) : Filed files s.closeJournal := by
  have hflush := h.flush
  have hbuffered : s.closeJournal.buffered = [] := by
    cases hw : s.store.writer with
    | none => simpa [Registry.closeJournal, sync_vacant hw] using (h.vacant hw).2
    | some w => simp [Registry.closeJournal, Registry.flush, hw]
  have hfiles : s.closeJournal.store.files = s.flush.store.files := by
    cases hw : s.store.writer with
    | none => simp [Registry.closeJournal, Registry.flush, JournalStore.close, JournalStore.sync, hw]
    | some w => simp [Registry.closeJournal, Registry.flush, JournalStore.close, JournalStore.sync, hw]
  have hjournaled (path : String) : s.closeJournal.journaled path = s.flush.journaled path := by
    have hempty : s.flush.buffered = [] := hbuffered
    rw [journaled, journaled, hbuffered, hempty, ite_self, ite_self]
    rfl
  refine ⟨fun _ => ⟨rfl, hbuffered⟩, ?_, hflush.tags, hflush.holds, hflush.due, ?_, ?_⟩
  · simp [Registry.closeJournal, JournalStore.close]
  · intro life l path hl hasked
    rw [hjournaled]
    exact hflush.kept life l path hl hasked
  · intro path
    rw [hfiles]
    exact hflush.files path

/-! ## §4 Opens and publishes -/

theorem Filed.reopen (h : Filed files s) (dir : String) {cap : Nat}
    (hl : s.lives[life]? = some l) (hcap : cap ≠ 0) (hsession : l.request.sessionId ≠ "")
    (hasked : l.request.asked = some (journalPath dir l.request.sessionId)) (hnone : l.published = [])
    (hpending : ∀ w ∈ s.store.writer, w.pending = []) :
    Filed files { s with
      store := s.store.openEntry dir l.request.sessionId cap, opener := some life, buffered := [] } := by
  have hbuffered : s.buffered = [] := by
    cases hw : s.store.writer with
    | none => exact (h.vacant hw).2
    | some w =>
      obtain ⟨opener, l', -, -, hentry⟩ := h.entry w hw
      have hmap := hentry.pending.symm.trans (hpending w hw)
      exact List.map_eq_nil_iff.mp hmap
  have hstore : s.store.openEntry dir l.request.sessionId cap =
      { s.store with
        writer := some ⟨journalPath dir l.request.sessionId, cap, false, 0, [], 0, 0, 0⟩ } := by
    simp [JournalStore.openEntry, hcap, hsession]
  have hbytes : bytesOf life (s.written (journalPath dir l.request.sessionId)) = [] := by
    have hprefix := (h.kept life l _ hl hasked).2
    rw [hnone, List.prefix_nil, journaled, bytesOf_append] at hprefix
    exact (List.append_eq_nil_iff.mp hprefix).1
  rw [hstore]
  refine ⟨fun hempty => absurd hempty (by simp), ?_, h.tags, h.holds, h.due, ?_, h.files⟩
  · rintro w ⟨⟩
    refine ⟨life, l, rfl, hl, hasked, rfl, by simp, ?_, ?_, fun hne => absurd rfl hne⟩
    · rw [hbytes, hnone]
      rfl
    · exact (congrArg List.length hbytes).symm
  · intro life' l' path hl' hasked'
    have hkept := h.kept life' l' path hl' hasked'
    rw [journaled, hbuffered, ite_self] at hkept
    rw [journaled, ite_self]
    exact hkept

theorem kin_publish_nil (l : Life) : Kin l (l.publish []) where
  request := rfl
  holds := by
    intro hholds
    exact hholds.append []
  published := List.append_nil _
  due := by simp [Life.publish]
  released := id

theorem Filed.publish_nil (h : Filed files s) (life : Nat) : Filed files (s.publish life []) := by
  unfold publish
  split
  · exact h
  · split
    · refine (h.modifyLife life kin_publish_nil).congr rfl rfl rfl ?_ rfl
      dsimp only [Registry.modifyLife]
      simp
    · exact h

theorem lives_publish (hl : s.lives[life]? = some l) (hrunning : l.running = true)
    (chunk : List UInt8) (other : Nat) : (s.publish life chunk).lives[other]? =
      (s.lives[other]?).map (if life = other then (·.publish chunk) else id) := by
  simp only [publish, hl, hrunning, if_true]
  exact getElem?_modifyLife s life _ other

theorem Filed.publish (h : Filed files s) (hl : s.lives[life]? = some l)
    (hrunning : l.running = true) {chunk : List UInt8} (hchunk : chunk ≠ [])
    (hentry : s.store.writer ≠ none → s.opener = some life)
    (hnone : s.store.writer = none → l.request.asked = none ∨ l.released = true) :
    Filed files (s.publish life chunk) := by
  have hlives := lives_publish hl hrunning chunk
  have hholds := h.holds life l hl
  have hself : (s.publish life chunk).lives[life]? = some (l.publish chunk) := by
    rw [hlives, hl, if_pos rfl]
    rfl
  have hback {other : Nat} {l' : Life} (hl' : (s.publish life chunk).lives[other]? = some l') :
      other = life ∧ l' = l.publish chunk ∨ other ≠ life ∧ s.lives[other]? = some l' := by
    grind
  have hdue : l.due <+: l.published ∧ (l.released = false → l.due = l.published) := h.due life l hl
  have hdue' : (l.publish chunk).due <+: (l.publish chunk).published ∧
      ((l.publish chunk).released = false → (l.publish chunk).due = (l.publish chunk).published) := by
    grind [Life.publish]
  have hopener : (s.publish life chunk).opener = s.opener := by
    simp [Registry.publish, hl, hrunning, Registry.modifyLife]
  have hwritten : (s.publish life chunk).written = s.written := by
    simp [Registry.publish, hl, hrunning, Registry.modifyLife]
  have hfiles : (s.publish life chunk).store.files = s.store.files := by
    simp only [Registry.publish, hl, hrunning, if_true, JournalStore.append, if_neg hchunk]
    cases s.store.writer <;> rfl
  have htags : ∀ path, ∀ b ∈ (s.publish life chunk).written path, ∃ l,
      (s.publish life chunk).lives[b.1]? = some l ∧ l.request.asked = some path := by
    rw [hwritten]
    intro path b hb
    obtain ⟨l', hl', hasked⟩ := h.tags path b hb
    rcases eq_or_ne b.1 life with heq | hne
    · rw [heq] at hl' ⊢
      obtain rfl := Option.some.inj (hl.symm.trans hl')
      exact ⟨_, hself, hasked⟩
    · exact ⟨l', by grind, hasked⟩
  have hrings : ∀ (other : Nat) (l' : Life), (s.publish life chunk).lives[other]? = some l' →
      l'.ring.Holds l'.published := by
    intro other l' hl'
    rcases hback hl' with ⟨rfl, rfl⟩ | ⟨-, hold⟩
    · exact hholds.append chunk
    · exact h.holds other l' hold
  have hdues : ∀ (other : Nat) (l' : Life), (s.publish life chunk).lives[other]? = some l' →
      l'.due <+: l'.published ∧ (l'.released = false → l'.due = l'.published) := by
    intro other l' hl'
    rcases hback hl' with ⟨rfl, rfl⟩ | ⟨-, hold⟩
    · exact hdue'
    · exact h.due other l' hold
  cases hw : s.store.writer with
  | none =>
    have hstore : (s.publish life chunk).store = s.store := by
      simp [Registry.publish, hl, hrunning, JournalStore.append, hchunk, hw]
    have hbuffered : (s.publish life chunk).buffered = s.buffered := by
      simp [Registry.publish, hl, hrunning, hw]
    have hjournaled (path : String) : (s.publish life chunk).journaled path = s.journaled path := by
      rw [journaled, journaled, hwritten, hstore, hbuffered]
    refine ⟨?_, ?_, htags, hrings, hdues, ?_, ?_⟩
    · rw [hopener, hbuffered]
      exact fun _ => h.vacant hw
    · simp [hstore, hw]
    · intro other l' path hl' hasked
      rw [hjournaled]
      rcases hback hl' with ⟨rfl, rfl⟩ | ⟨-, hold⟩
      · have hreleased : l.released = true := (hnone hw).resolve_left fun habsent =>
          absurd (habsent.symm.trans hasked) (by simp)
        have hkept := h.kept other l path hl hasked
        simp only [Life.publish, hreleased, if_true]
        exact ⟨hkept.1, hkept.2.trans (List.prefix_append _ _)⟩
      · exact h.kept other l' path hold hasked
    · rw [hwritten, hfiles]
      exact h.files
  | some w =>
    obtain ⟨opener, l₀, hlife, hl₀, hold⟩ := h.entry w hw
    obtain rfl : opener = life := Option.some.inj (hlife.symm.trans (hentry (by rw [hw]; simp)))
    obtain rfl : l = l₀ := Option.some.inj (hl.symm.trans hl₀)
    have hwriter : (s.publish opener chunk).store.writer =
        some { w with pending := w.pending ++ chunk, pendingEnd := l.ring.head + chunk.length } := by
      simp [Registry.publish, hl, hrunning, JournalStore.append, hchunk, hw]
    have hbuffered : (s.publish opener chunk).buffered = s.buffered ++ chunk.map ((opener, ·)) := by
      simp [Registry.publish, hl, hrunning, hw]
    have hgrown : Entry (s.publish opener chunk) opener (l.publish chunk)
        { w with pending := w.pending ++ chunk, pendingEnd := l.ring.head + chunk.length } := by
      refine ⟨hold.asked, ?_, ?_, ?_, ?_, fun _ => ?_⟩
      · rw [hbuffered, List.map_append, map_tag, hold.pending]
      · rw [hbuffered]
        intro b hb
        rcases List.mem_append.mp hb with hpast | hnew
        · exact hold.own b hpast
        · grind
      · rw [hwritten, Life.publish, ← hold.whole, List.append_assoc]
      · rw [hwritten]
        exact hold.flushed
      · rw [hholds.head_eq, Life.publish, List.length_append]
    refine ⟨fun hempty => absurd (hwriter.symm.trans hempty) (by simp), ?_, htags, hrings, hdues, ?_, ?_⟩
    · grind
    · intro other l' path hl' hasked
      rcases hback hl' with ⟨rfl, rfl⟩ | ⟨hne, hother⟩
      · have hpath : w.path = path := Option.some.inj (hold.asked.symm.trans hasked)
        have hall := hgrown.journaled hwriter
        rw [hpath] at hall
        rw [hall]
        exact ⟨hdue'.1, List.prefix_refl _⟩
      · -- the chunk is nothing of another life's
        have hsame : bytesOf other ((s.publish opener chunk).journaled path) =
            bytesOf other (s.journaled path) := by
          have hnew : bytesOf other (chunk.map ((opener, ·))) = [] := by
            refine bytesOf_other fun b hb => ?_
            obtain ⟨byte, -, rfl⟩ := List.mem_map.mp hb
            exact hne.symm
          rw [journaled_entry hwriter, journaled_entry hw, hwritten, hbuffered]
          split
          · simp [hnew]
          · rfl
        rw [hsame]
        exact h.kept other l' path hother hasked
    · rw [hwritten, hfiles]
      exact h.files

/-! ## §5 Who may still publish -/

/-- What holds of the lives. -/
structure Seated (s : Registry) : Prop where
  spawned : s.spawning ≠ none → s.pane = none
  stage : ∀ spawning, s.spawning = some spawning → ∀ life, spawning.stage.life = some life →
    ∃ l, s.lives[life]? = some l ∧ l.request = spawning.request ∧ l.inserted = false ∧
      (spawning.stage = .pumping life → l.request.asked ≠ none → l.published = [])
  pane : ∀ life pid, s.pane = some (life, pid) → ∃ l, s.lives[life]? = some l ∧ l.inserted = true
  uninserted : ∀ (life : Nat) (l : Life), s.lives[life]? = some l → l.inserted = false →
    l.released = false ∧ ∃ spawning, s.spawning = some spawning ∧ spawning.stage.life = some life
  writing : ∀ (life : Nat) (l : Life), s.lives[life]? = some l → l.request.asked ≠ none →
    l.released = false → l.running = true →
    s.opener = some life ∨ ∃ spawning, s.spawning = some spawning ∧ spawning.stage = .pumping life
  owned : ∀ (life : Nat) (l : Life), s.lives[life]? = some l → l.inserted = true → l.released = false →
    l.running = true ∨ s.opener = some life →
    (∃ pid, s.pane = some (life, pid)) ∨ ∃ r ∈ s.reapers, r.drains = some life
  opener : ∀ life, s.opener = some life → (∃ l, s.lives[life]? = some l) ∧
    ∀ spawning, s.spawning = some spawning → spawning.stage ≠ .pumping life

/-- The two together. -/
structure Inv (files : String → List UInt8) (s : Registry) : Prop where
  filed : Filed files s
  seated : Seated s

theorem inv_new (ringCapacity : Nat) (files : String → List UInt8) : Inv files (new ringCapacity files) where
  filed := by
    refine ⟨fun _ => ⟨rfl, rfl⟩, ?_, ?_, ?_, ?_, ?_, fun path => ?_⟩
    · simp [new]
    · simp [new]
    · simp [new]
    · simp [new]
    · simp [new]
    · simpa [new] using Compaction.start (files path)
  seated := by constructor <;> simp [new]

/-- A change to one life that neither starts its pump nor takes a release
back. -/
theorem Seated.modifyLife (h : Seated s) (life : Nat) {f : Life → Life}
    (hrequest : ∀ l, (f l).request = l.request)
    (hpublished : ∀ l, s.lives[life]? = some l → l.request.asked ≠ none →
      (∃ spawning, s.spawning = some spawning ∧ spawning.stage = .pumping life) →
      (f l).published = l.published)
    (hinserted : ∀ l, (f l).inserted = l.inserted) (hrunning : ∀ l, (f l).running = true → l.running = true)
    (hreleased : ∀ l, (f l).released = false → l.released = false)
    (hkept : ∀ l, s.lives[life]? = some l → l.inserted = false → (f l).released = false) :
    Seated (s.modifyLife life f) := by
  have hback {other : Nat} {l' : Life} (hl' : (s.modifyLife life f).lives[other]? = some l') :
      ∃ l, s.lives[other]? = some l ∧ (l' = l ∨ other = life ∧ l' = f l) := by
    rw [getElem?_modifyLife] at hl'
    obtain ⟨l, hl, rfl⟩ := Option.map_eq_some_iff.mp hl'
    refine ⟨l, hl, ?_⟩
    by_cases heq : life = other
    · exact .inr ⟨heq.symm, by rw [if_pos heq]⟩
    · exact .inl (by rw [if_neg heq]; rfl)
  have hforth {other : Nat} {l : Life} (hl : s.lives[other]? = some l) :
      ∃ l', (s.modifyLife life f).lives[other]? = some l' ∧ l'.request = l.request ∧
        l'.inserted = l.inserted ∧ (l' = l ∨ life = other ∧ l' = f l) := by
    refine ⟨_, by rw [getElem?_modifyLife, hl]; rfl, ?_⟩
    by_cases heq : life = other
    · grind
    · rw [if_neg heq]
      exact ⟨rfl, rfl, .inl rfl⟩
  refine ⟨h.spawned, ?_, ?_, ?_, ?_, ?_, ?_⟩
  · intro spawning hspawning other hlife
    obtain ⟨l, hl, hsame, hout, hnone⟩ := h.stage spawning hspawning other hlife
    obtain ⟨l', hl', hreq, hins, hor⟩ := hforth hl
    refine ⟨l', hl', hreq.trans hsame, hins.trans hout, fun hstage hasked => ?_⟩
    rw [hreq] at hasked
    rcases hor with rfl | ⟨rfl, rfl⟩
    · exact hnone hstage hasked
    · exact (hpublished l hl hasked ⟨spawning, hspawning, hstage⟩).trans (hnone hstage hasked)
  · intro other pid hpane
    obtain ⟨l, hl, hin⟩ := h.pane other pid hpane
    obtain ⟨l', hl', -, hins, -⟩ := hforth hl
    exact ⟨l', hl', hins.trans hin⟩
  · intro other l' hl' hout
    obtain ⟨l, hl, rfl | ⟨rfl, rfl⟩⟩ := hback hl'
    · exact h.uninserted other l' hl hout
    · rw [hinserted] at hout
      exact ⟨hkept l hl hout, (h.uninserted other l hl hout).2⟩
  · intro other l' hl' hasked hnot hrun
    obtain ⟨l, hl, rfl | ⟨rfl, rfl⟩⟩ := hback hl'
    · exact h.writing other l' hl hasked hnot hrun
    · rw [hrequest] at hasked
      exact h.writing other l hl hasked (hreleased l hnot) (hrunning l hrun)
  · intro other l' hl' hin hnot hor
    obtain ⟨l, hl, rfl | ⟨rfl, rfl⟩⟩ := hback hl'
    · exact h.owned other l' hl hin hnot hor
    · rw [hinserted] at hin
      exact h.owned other l hl hin (hreleased l hnot) (hor.imp_left (hrunning l))
  · intro other hopener
    obtain ⟨⟨l, hl⟩, hstage⟩ := h.opener other hopener
    obtain ⟨l', hl', -⟩ := hforth hl
    exact ⟨⟨l', hl'⟩, hstage⟩

theorem Seated.congr (h : Seated s) (hlives : s'.lives = s.lives) (hpane : s'.pane = s.pane)
    (hspawning : s'.spawning = s.spawning) (hopener : s'.opener = s.opener)
    (hreapers : ∀ life, (∃ r ∈ s.reapers, r.drains = some life) → ∃ r ∈ s'.reapers, r.drains = some life) :
    Seated s' := by
  refine ⟨?_, ?_, ?_, ?_, ?_, ?_, ?_⟩
  · rw [hspawning, hpane]
    exact h.spawned
  · rw [hspawning, hlives]
    exact h.stage
  · rw [hpane, hlives]
    exact h.pane
  · rw [hlives, hspawning]
    exact h.uninserted
  · rw [hlives, hopener, hspawning]
    exact h.writing
  · rw [hlives, hopener, hpane]
    exact fun life l hl hin hnot hor => (h.owned life l hl hin hnot hor).imp_right (hreapers life)
  · rw [hopener, hlives, hspawning]
    exact h.opener

theorem drains_set {index : Nat} {r r' : Reaper} (hr : s.reapers[index]? = some r) (hnone : r.drains = none)
    (life : Nat) (h : ∃ q ∈ s.reapers, q.drains = some life) :
    ∃ q ∈ s.reapers.set index r', q.drains = some life := by
  obtain ⟨q, hq, hdrains⟩ := h
  obtain ⟨j, hj⟩ := List.getElem?_of_mem hq
  have hne : index ≠ j := by
    grind
  exact ⟨q, List.mem_of_getElem? (by rw [List.getElem?_set_ne hne]; exact hj), hdrains⟩

/-! ## §6 The spawn -/

theorem Inv.spawn (h : Inv files s) (request : SpawnRequest) (pid : Nat) : Inv files (s.spawn request pid) := by
  unfold Registry.spawn
  split
  · exact h
  · rename_i hfree
    simp only [Bool.or_eq_true, Option.isSome_iff_ne_none, not_or, ne_eq, not_not] at hfree
    obtain ⟨⟨hpane, hspawning⟩, -⟩ := hfree
    refine ⟨h.filed.congr rfl rfl rfl rfl rfl, fun _ => hpane, ?_, h.seated.pane, ?_, ?_, h.seated.owned, ?_⟩
    · simp [Stage.life]
    · intro life l hl hout
      obtain ⟨-, spawning, hsome, -⟩ := h.seated.uninserted life l hl hout
      exact absurd (hspawning.symm.trans hsome) (by simp)
    · intro life l hl hasked hnot hrun
      rcases h.seated.writing life l hl hasked hnot hrun with hopener | ⟨spawning, hsome, -⟩
      · exact .inl hopener
      · exact absurd (hspawning.symm.trans hsome) (by simp)
    · intro life hopener
      exact ⟨(h.seated.opener life hopener).1, by simp⟩

theorem Inv.abandon (h : Inv files s) : Inv files s.abandon := by
  unfold Registry.abandon
  split
  · rename_i request pid hspawning
    refine ⟨h.filed.congr rfl rfl rfl rfl rfl, by simp, by simp, h.seated.pane, ?_, ?_, ?_, ?_⟩
    · intro life l hl hout
      obtain ⟨-, spawning, hsome, hlife⟩ := h.seated.uninserted life l hl hout
      obtain rfl := Option.some.inj (hspawning.symm.trans hsome)
      exact absurd hlife (by simp [Stage.life])
    · intro life l hl hasked hnot hrun
      rcases h.seated.writing life l hl hasked hnot hrun with hopener | ⟨spawning, hsome, hstage⟩
      · exact .inl hopener
      · grind
    · intro life l hl hin hnot hor
      refine (h.seated.owned life l hl hin hnot hor).imp_right ?_
      rintro ⟨r, hr, hdrains⟩
      exact ⟨r, List.mem_append_left _ hr, hdrains⟩
    · exact fun life hopener => ⟨(h.seated.opener life hopener).1, by simp⟩
  · exact h

theorem Inv.startPump (h : Inv files s) : Inv files s.startPump := by
  unfold Registry.startPump
  split
  · rename_i request pid hspawning
    have hnew {life : Nat} {l : Life} (hl : (s.lives ++
        [⟨request, .new s.ringCapacity, true, false, false, [], []⟩])[life]? = some l) :
        s.lives[life]? = some l ∨ life = s.lives.length ∧
          l = ⟨request, .new s.ringCapacity, true, false, false, [], []⟩ := by
      grind
    have hold {life : Nat} {l : Life} (hl : s.lives[life]? = some l) : (s.lives ++
        [(⟨request, .new s.ringCapacity, true, false, false, [], []⟩ : Life)])[life]? = some l := by
      grind
    have habsent : s.lives[s.lives.length]? = none := List.getElem?_eq_none (Nat.le_refl _)
    refine ⟨⟨h.filed.vacant, ?_, ?_, ?_, ?_, ?_, h.filed.files⟩, ?_⟩
    · intro w hw
      obtain ⟨life, l, hlife, hl, hentry⟩ := h.filed.entry w hw
      exact ⟨life, l, hlife, hold hl,
        ⟨hentry.asked, hentry.pending, hentry.own, hentry.whole, hentry.flushed, hentry.ending⟩⟩
    · intro path b hb
      obtain ⟨l, hl, hasked⟩ := h.filed.tags path b hb
      exact ⟨l, hold hl, hasked⟩
    · intro life l hl
      rcases hnew hl with hpast | ⟨-, rfl⟩
      · exact h.filed.holds life l hpast
      · exact OutputRing.holds_new _
    · intro life l hl
      rcases hnew hl with hpast | ⟨-, rfl⟩
      · exact h.filed.due life l hpast
      · exact ⟨List.prefix_refl _, fun _ => rfl⟩
    · intro life l path hl hasked
      rcases hnew hl with hpast | ⟨rfl, rfl⟩
      · exact h.filed.kept life l path hpast hasked
      · have hnothing : bytesOf s.lives.length (s.journaled path) = [] :=
          h.filed.stranger fun l hl => absurd (habsent.symm.trans hl) (by simp)
        refine ⟨List.nil_prefix, ?_⟩
        exact hnothing ▸ List.nil_prefix
    · refine ⟨fun _ => h.seated.spawned (by rw [hspawning]; simp), ?_, ?_, ?_, ?_, ?_, ?_⟩
      · rintro spawning ⟨⟩ life ⟨⟩
        exact ⟨_, List.getElem?_concat_length, rfl, rfl, fun _ _ => rfl⟩
      · intro life pid hpane
        obtain ⟨l, hl, hin⟩ := h.seated.pane life pid hpane
        exact ⟨l, hold hl, hin⟩
      · intro life l hl hout
        rcases hnew hl with hpast | ⟨rfl, rfl⟩
        · obtain ⟨-, spawning, hsome, hlife⟩ := h.seated.uninserted life l hpast hout
          obtain rfl := Option.some.inj (hspawning.symm.trans hsome)
          exact absurd hlife (by simp [Stage.life])
        · exact ⟨rfl, _, rfl, rfl⟩
      · intro life l hl hasked hnot hrun
        rcases hnew hl with hpast | ⟨rfl, rfl⟩
        · rcases h.seated.writing life l hpast hasked hnot hrun with hopener | ⟨spawning, hsome, hstage⟩
          · exact .inl hopener
          · grind
        · exact .inr ⟨_, rfl, rfl⟩
      · intro life l hl hin
        rcases hnew hl with hpast | ⟨rfl, rfl⟩
        · exact h.seated.owned life l hpast hin
        · exact absurd hin (by simp)
      · intro life hopener
        obtain ⟨⟨l, hl⟩, -⟩ := h.seated.opener life hopener
        refine ⟨⟨l, hold hl⟩, ?_⟩
        rintro spawning ⟨⟩ heq
        obtain rfl : s.lives.length = life := by simpa using heq
        exact absurd (habsent.symm.trans hl) (by simp)
  · exact h

theorem Seated.proceed (h : Seated s) {request : SpawnRequest} {pid : Nat}
    (hspawning : s.spawning = some ⟨request, pid, .pumping life⟩) (hasked : request.asked = none) :
    Seated { s with spawning := some ⟨request, pid, .opened life⟩ } := by
  refine ⟨fun _ => h.spawned (by rw [hspawning]; simp), ?_, h.pane, ?_, ?_, h.owned, ?_⟩
  · rintro spawning ⟨⟩ other ⟨⟩
    obtain ⟨l, hl, hrequest, hout, -⟩ := h.stage _ hspawning life rfl
    exact ⟨l, hl, hrequest, hout, by simp⟩
  · intro other l hl hout
    obtain ⟨hnot, spawning, hsome, hlife⟩ := h.uninserted other l hl hout
    obtain rfl := Option.some.inj (hspawning.symm.trans hsome)
    exact ⟨hnot, _, rfl, hlife⟩
  · intro other l hl hasked' hnot hrun
    rcases h.writing other l hl hasked' hnot hrun with hopener | ⟨spawning, hsome, hstage⟩
    · exact .inl hopener
    · -- the life that was pumping asked for nothing
      obtain rfl := Option.some.inj (hspawning.symm.trans hsome)
      obtain rfl : life = other := by simpa using hstage
      obtain ⟨l', hl', hrequest, -⟩ := h.stage _ hspawning life rfl
      obtain rfl := Option.some.inj (hl.symm.trans hl')
      exact absurd (hrequest ▸ hasked) hasked'
  · intro other hopener
    exact ⟨(h.opener other hopener).1, by simp⟩

/-- A spawn opens the journal it asked for: every other life of the id is
through. -/
theorem Seated.open (h : Seated s) {request : SpawnRequest} {pid : Nat}
    (hspawning : s.spawning = some ⟨request, pid, .pumping life⟩)
    (hreapers : ∀ r ∈ s.reapers, r.drains = none) (store : JournalStore) :
    Seated { s with
      spawning := some ⟨request, pid, .opened life⟩, store, opener := some life, buffered := [] } := by
  have hpane := h.spawned (by rw [hspawning]; simp)
  refine ⟨fun _ => hpane, ?_, h.pane, ?_, ?_, ?_, ?_⟩
  · rintro spawning ⟨⟩ other ⟨⟩
    obtain ⟨l, hl, hrequest, hout, -⟩ := h.stage _ hspawning life rfl
    exact ⟨l, hl, hrequest, hout, by simp⟩
  · intro other l hl hout
    obtain ⟨hnot, spawning, hsome, hlife⟩ := h.uninserted other l hl hout
    obtain rfl := Option.some.inj (hspawning.symm.trans hsome)
    exact ⟨hnot, _, rfl, hlife⟩
  · intro other l hl hasked hnot hrun
    cases hin : l.inserted with
    | true =>
      rcases h.owned other l hl hin hnot (.inl hrun) with ⟨pid', hsome⟩ | ⟨r, hr, hdrains⟩
      · exact absurd (hpane.symm.trans hsome) (by simp)
      · exact absurd ((hreapers r hr).symm.trans hdrains) (by simp)
    | false =>
      obtain ⟨-, spawning, hsome, hlife⟩ := h.uninserted other l hl hin
      obtain rfl := Option.some.inj (hspawning.symm.trans hsome)
      exact .inl hlife
  · intro other l hl hin hnot hor
    rcases hor with hrun | hopener
    · exact h.owned other l hl hin hnot (.inl hrun)
    · obtain rfl : life = other := Option.some.inj hopener
      obtain ⟨l', hl', -, hout, -⟩ := h.stage _ hspawning life rfl
      obtain rfl := Option.some.inj (hl.symm.trans hl')
      exact absurd (hin.symm.trans hout) (by simp)
  · rintro other ⟨⟩
    obtain ⟨l, hl, -⟩ := h.stage _ hspawning life rfl
    exact ⟨⟨l, hl⟩, by simp⟩

theorem Inv.openJournal (h : Inv files s) (horderly : s.Orderly .openJournal) : Inv files s.openJournal := by
  unfold Registry.openJournal
  split
  · rename_i request pid life hspawning
    cases hjournal : request.journal with
    | none =>
      have hasked : request.asked = none := by simp [SpawnRequest.asked, hjournal]
      exact ⟨h.filed.congr rfl rfl rfl rfl rfl, h.seated.proceed hspawning hasked⟩
    | some wanted =>
      by_cases hnothing : wanted.capBytes = 0 ∨ request.sessionId = ""
      · have hasked : request.asked = none := by simp [SpawnRequest.asked, hjournal, hnothing]
        have hstore : s.store.openEntry wanted.directory request.sessionId wanted.capBytes = s.store := by
          simp [JournalStore.openEntry, hnothing]
        simp only [hasked, hstore]
        exact ⟨h.filed.congr rfl rfl rfl rfl rfl, h.seated.proceed hspawning hasked⟩
      · have hasked : request.asked = some (journalPath wanted.directory request.sessionId) := by
          simp [SpawnRequest.asked, hjournal, hnothing]
        obtain ⟨hreapers, hpending⟩ := horderly _ hspawning (by rw [hasked]; simp)
        obtain ⟨l, hl, hrequest, -, hnone⟩ := h.seated.stage _ hspawning life rfl
        have hpublished := hnone rfl (by rw [hrequest, hasked]; simp)
        simp only [hasked, Option.isSome_some, if_true]
        refine ⟨?_, h.seated.open hspawning hreapers _⟩
        obtain ⟨hcap, hsession⟩ := not_or.mp hnothing
        have hreopen := h.filed.reopen wanted.directory hl hcap (by rw [hrequest]; exact hsession)
          (by rw [hrequest]; exact hasked) hpublished hpending
        rw [hrequest] at hreopen
        exact hreopen.congr rfl rfl rfl rfl rfl
  · exact h

theorem Inv.insert (h : Inv files s) : Inv files s.insert := by
  unfold Registry.insert
  split
  · rename_i request pid life hspawning
    obtain ⟨l, hl, hrequest, hout, -⟩ := h.seated.stage _ hspawning life rfl
    have hpane := h.seated.spawned (by rw [hspawning]; simp)
    have hfiled := h.filed.modifyLife life (f := fun l => { l with inserted := true })
      fun l => ⟨rfl, id, rfl, rfl, id⟩
    refine ⟨hfiled.congr rfl rfl rfl rfl rfl, fun hne => absurd rfl hne, by simp, ?_, ?_, ?_, ?_, ?_⟩
    · simp [getElem?_modifyLife, if_pos, hl]
    · intro other l' hl' hout'
      rw [getElem?_modifyLife] at hl'
      obtain ⟨l₀, hl₀, rfl⟩ := Option.map_eq_some_iff.mp hl'
      by_cases heq : life = other
      · grind
      · -- only the spawn's life was out
        rw [if_neg heq] at hout'
        obtain ⟨-, spawning, hsome, hlife⟩ := h.seated.uninserted other l₀ hl₀ hout'
        obtain rfl := Option.some.inj (hspawning.symm.trans hsome)
        exact absurd (Option.some.inj hlife) heq
    · intro other l' hl' hasked hnot hrun
      rw [getElem?_modifyLife] at hl'
      obtain ⟨l₀, hl₀, rfl⟩ := Option.map_eq_some_iff.mp hl'
      have hsame : (if life = other then (fun l : Life => { l with inserted := true }) else id) l₀ =
          { l₀ with inserted := if life = other then true else l₀.inserted } := by split <;> rfl
      rw [hsame] at hasked hnot hrun
      rcases h.seated.writing other l₀ hl₀ hasked hnot hrun with hopener | ⟨spawning, hsome, hstage⟩
      · exact .inl hopener
      · grind
    · intro other l' hl' hin hnot hor
      rw [getElem?_modifyLife] at hl'
      obtain ⟨l₀, hl₀, rfl⟩ := Option.map_eq_some_iff.mp hl'
      by_cases heq : life = other
      · exact .inl ⟨pid, by rw [heq]⟩
      · rw [if_neg heq] at hin hnot hor
        rcases h.seated.owned other l₀ hl₀ hin hnot hor with ⟨pid', hsome⟩ | ⟨r, hr, hdrains⟩
        · exact absurd (hpane.symm.trans hsome) (by simp)
        · exact .inr ⟨r, List.mem_append_left _ hr, hdrains⟩
    · intro other hopener
      obtain ⟨⟨l₀, hl₀⟩, -⟩ := h.seated.opener other hopener
      exact ⟨⟨_, by rw [getElem?_modifyLife, hl₀]; rfl⟩, by simp⟩
  · exact h

/-! ## §7 The pump -/

theorem Inv.publish (h : Inv files s) {chunk : List UInt8}
    (horderly : s.Orderly (.publish life chunk)) : Inv files (s.publish life chunk) := by
  cases hl : s.lives[life]? with
  | none => simpa only [Registry.publish, hl] using h
  | some l =>
    cases hrunning : l.running with
    | false => simpa [Registry.publish, hl, hrunning] using h
    | true =>
      constructor
      · by_cases hchunk : chunk = []
        · rw [hchunk]
          exact h.filed.publish_nil life
        · have hcond := (horderly.resolve_left hchunk) l hl
          -- a life that is owed a journal has the entry
          have howed (hasked : l.request.asked ≠ none) (hnot : l.released = false) : s.opener = some life := by
            rw [if_pos ⟨Option.isSome_iff_ne_none.mpr hasked, hnot⟩] at hcond
            refine (h.seated.writing life l hl hasked hnot hrunning).resolve_right ?_
            rintro ⟨spawning, hsome, hstage⟩
            exact hcond spawning hsome hstage
          refine h.filed.publish hl hrunning hchunk ?_ ?_
          · intro hsome
            by_cases hdue : l.request.asked.isSome ∧ l.released = false
            · exact howed (Option.isSome_iff_ne_none.mp hdue.1) hdue.2
            · rw [if_neg hdue] at hcond
              refine hcond.resolve_left fun hnone => ?_
              obtain ⟨w, hw⟩ := Option.ne_none_iff_exists'.mp hsome
              obtain ⟨opener, -, hopener, -⟩ := h.filed.entry w hw
              exact absurd (hnone.symm.trans hopener) (by simp)
          · intro hvacant
            by_contra hdue
            rw [not_or, Bool.not_eq_true] at hdue
            exact absurd ((h.filed.vacant hvacant).1.symm.trans (howed hdue.1 hdue.2)) (by simp)
      · have hseated := h.seated.modifyLife life (f := (·.publish chunk)) (fun _ => rfl) ?_ (fun _ => rfl)
          (fun _ => id) (fun _ => id) fun l hl hout => (h.seated.uninserted life l hl hout).1
        · refine hseated.congr ?_ ?_ ?_ ?_ fun _ hr => ?_
          all_goals simp [Registry.publish, hl, hrunning, Registry.modifyLife]
          simpa [Registry.modifyLife] using hr
        · -- nothing is published before the journal that is owed
          intro l' hl' hasked hpumping
          obtain rfl := Option.some.inj (hl.symm.trans hl')
          rcases horderly with rfl | hcond
          · exact List.append_nil _
          · obtain ⟨spawning, hsome, hstage⟩ := hpumping
            obtain ⟨l₀, hl₀, -, hout, -⟩ := h.seated.stage spawning hsome life (by rw [hstage]; rfl)
            obtain rfl := Option.some.inj (hl.symm.trans hl₀)
            have hnot := (h.seated.uninserted life l hl hout).1
            have hcond' := hcond l hl
            rw [if_pos ⟨Option.isSome_iff_ne_none.mpr hasked, hnot⟩] at hcond'
            exact absurd hstage (hcond' spawning hsome)

theorem Inv.pumpEnded (h : Inv files s) (life : Nat) : Inv files (s.pumpEnded life) where
  filed := h.filed.modifyLife life fun _ => ⟨rfl, id, rfl, rfl, id⟩
  seated := h.seated.modifyLife life (fun _ => rfl) (fun _ _ _ _ => rfl) (fun _ => rfl) (by simp)
    (fun _ => id) fun l hl hout => (h.seated.uninserted life l hl hout).1

theorem Inv.flush (h : Inv files s) : Inv files s.flush where
  filed := h.filed.flush
  seated := by
    cases hw : s.store.writer with
    | none => rw [sync_vacant hw]; exact h.seated
    | some w =>
      refine h.seated.congr ?_ ?_ ?_ ?_ fun _ hr => ?_
      all_goals simp [Registry.flush, hw]
      simpa using hr

/-! ## §8 The release and the reaper -/

theorem Seated.closeJournal (h : Seated s)
    (hwriting : ∀ (life : Nat) (l : Life), s.lives[life]? = some l → l.request.asked ≠ none →
      l.released = false → l.running = true → s.opener ≠ some life) : Seated s.closeJournal := by
  have hopener : s.closeJournal.opener = none := rfl
  refine ⟨?_, ?_, ?_, ?_, ?_, ?_, ?_⟩
  · rw [closeJournal_spawning, closeJournal_pane]
    exact h.spawned
  · rw [closeJournal_spawning, closeJournal_lives]
    exact h.stage
  · rw [closeJournal_pane, closeJournal_lives]
    exact h.pane
  · rw [closeJournal_lives, closeJournal_spawning]
    exact h.uninserted
  · rw [closeJournal_lives, closeJournal_spawning]
    intro life l hl hasked hnot hrun
    exact .inr ((h.writing life l hl hasked hnot hrun).resolve_left (hwriting life l hl hasked hnot hrun))
  · rw [closeJournal_lives, closeJournal_pane, closeJournal_reapers, hopener]
    intro life l hl hin hnot hor
    exact h.owned life l hl hin hnot (hor.imp_right fun hsome => absurd hsome (by simp))
  · rw [hopener]
    simp

theorem Inv.release (h : Inv files s) (horderly : s.Orderly .release) : Inv files s.release := by
  have hmap (life : Nat) : s.release.lives[life]? =
      (s.lives[life]?).map fun l => { l with released := l.released || l.inserted } := by
    rw [Registry.release, List.getElem?_map]
  constructor
  · refine h.filed.closeJournal.frame (g := fun _ l => { l with released := l.released || l.inserted })
      (fun _ _ => ⟨rfl, id, rfl, rfl, fun hnot => (Bool.or_eq_false_iff.mp hnot).1⟩) (fun life => ?_)
      rfl rfl rfl rfl
    rw [closeJournal_lives]
    exact hmap life
  · have hback {life : Nat} {l' : Life} (hl' : s.release.lives[life]? = some l') :
        ∃ l, s.lives[life]? = some l ∧ l' = { l with released := l.released || l.inserted } := by
      grind
    have hforth {life : Nat} {l : Life} (hl : s.lives[life]? = some l) :
        s.release.lives[life]? = some { l with released := l.released || l.inserted } := by
      rw [hmap, hl, Option.map_some]
    have hspawning' : s.release.spawning = s.spawning := closeJournal_spawning s
    have hpane' : s.release.pane = s.pane := closeJournal_pane s
    refine ⟨?_, ?_, ?_, ?_, ?_, ?_, fun life hopener => absurd hopener (by simp [Registry.release, Registry.closeJournal])⟩
    · rw [hspawning', hpane']
      exact h.seated.spawned
    · rw [hspawning']
      intro spawning hsome life hlife
      obtain ⟨l, hl, hrequest, hout, hnone⟩ := h.seated.stage spawning hsome life hlife
      exact ⟨_, hforth hl, hrequest, hout, hnone⟩
    · rw [hpane']
      intro life pid hsome
      obtain ⟨l, hl, hin⟩ := h.seated.pane life pid hsome
      exact ⟨_, hforth hl, hin⟩
    · rw [hspawning']
      intro life l' hl' hout
      obtain ⟨l, hl, rfl⟩ := hback hl'
      obtain ⟨hnot, hsome⟩ := h.seated.uninserted life l hl hout
      exact ⟨by simpa using ⟨hnot, hout⟩, hsome⟩
    · rw [hspawning']
      intro life l' hl' hasked hnot hrun
      obtain ⟨l, hl, rfl⟩ := hback hl'
      -- what was not released now was never inserted, and its journal is not open
      obtain ⟨-, hout⟩ : l.released = false ∧ l.inserted = false := by simpa using hnot
      obtain ⟨-, spawning, hsome, hlife⟩ := h.seated.uninserted life l hl hout
      refine .inr ⟨spawning, hsome, ?_⟩
      have hopened := horderly spawning hsome life hlife
      cases hstage : spawning.stage with
      | forked => exact absurd (hstage ▸ hlife) (by simp [Stage.life])
      | pumping other =>
        rw [hstage] at hlife
        rw [Option.some.inj hlife]
      | opened other =>
        rw [hstage] at hlife hopened
        exact absurd (by rw [Option.some.inj hlife]) hopened
    · grind

theorem Inv.releaseTake (h : Inv files s) (index : Nat) : Inv files (s.releaseTake index) := by
  unfold Registry.releaseTake
  split
  · cases hpane : s.pane with
    | none =>
      exact ⟨h.filed.congr rfl rfl rfl rfl rfl, h.seated.congr rfl hpane.symm rfl rfl fun _ => id⟩
    | some entry =>
      obtain ⟨life, pid⟩ := entry
      obtain ⟨l, hl, hin⟩ := h.seated.pane life pid hpane
      have hfiled := h.filed.modifyLife life (f := fun l => { l with released := true })
        fun l => ⟨rfl, id, rfl, rfl, fun hnot => absurd hnot (by simp)⟩
      have hseated : Seated (s.modifyLife life fun l => { l with released := true }) := by
        refine h.seated.modifyLife life (fun _ => rfl) (fun _ _ _ _ => rfl) (fun _ => rfl) (fun _ => id)
          (fun _ hnot => absurd hnot (by simp)) fun l' hl' hout => ?_
        obtain rfl := Option.some.inj (hl.symm.trans hl')
        exact absurd (hin.symm.trans hout) (by simp)
      refine ⟨hfiled.congr rfl rfl rfl rfl rfl, fun _ => rfl, hseated.stage, by simp, hseated.uninserted,
        hseated.writing, ?_, hseated.opener⟩
      intro other l' hl' hin' hnot hor
      rcases hseated.owned other l' hl' hin' hnot hor with ⟨pid', hsome⟩ | hreaper
      · -- the pane that left was a released life's
        obtain rfl : life = other := by
          have := hpane.symm.trans hsome
          simp_all
        rw [getElem?_modifyLife, if_pos rfl, hl] at hl'
        obtain rfl := Option.some.inj hl'
        exact absurd hnot (by simp)
      · exact .inr hreaper
  · exact h

theorem Inv.releaseJoin (h : Inv files s) (index : Nat) : Inv files (s.releaseJoin index) := by
  unfold Registry.releaseJoin
  split
  · rename_i life _
    have hpump := h.pumpEnded life
    exact ⟨hpump.filed.congr rfl rfl rfl rfl rfl, hpump.seated.congr rfl rfl rfl rfl fun _ => id⟩
  · exact h

theorem Inv.reap (h : Inv files s) (index : Nat) : Inv files (s.reap index) := by
  unfold Registry.reap
  split
  · rename_i pid hreaper
    exact ⟨h.filed.congr rfl rfl rfl rfl rfl, h.seated.congr rfl rfl rfl rfl (drains_set hreaper rfl)⟩
  · exact h

theorem Inv.reaperTake (h : Inv files s) (index : Nat) : Inv files (s.reaperTake index) := by
  unfold Registry.reaperTake
  split
  · rename_i pid hreaper
    cases hpane : s.pane with
    | none =>
      exact ⟨h.filed.congr rfl rfl rfl rfl rfl,
        h.seated.congr rfl hpane.symm rfl rfl (drains_set hreaper rfl)⟩
    | some entry =>
      obtain ⟨life, recorded⟩ := entry
      dsimp only
      split
      · refine ⟨h.filed.congr rfl rfl rfl rfl rfl, fun _ => rfl, h.seated.stage, by simp,
          h.seated.uninserted, h.seated.writing, ?_, h.seated.opener⟩
        intro other l hl hin hnot hor
        refine .inr ?_
        rcases h.seated.owned other l hl hin hnot hor with ⟨pid', hsome⟩ | hdraining
        · obtain rfl : life = other := by
            simp_all
          have hlt := (List.getElem?_eq_some_iff.mp hreaper).1
          exact ⟨_, List.mem_of_getElem? (List.getElem?_set_self hlt), rfl⟩
        · exact drains_set hreaper rfl other hdraining
      · exact ⟨h.filed.congr rfl rfl rfl rfl rfl,
          h.seated.congr rfl hpane.symm rfl rfl (drains_set hreaper rfl)⟩
  · exact h

/-- A reaper that closes its own life's entry, or none, takes it from no
life that still publishes. -/
theorem Inv.reaperClose (h : Inv files s) {index : Nat} (horderly : s.Orderly (.reaperClose index)) :
    Inv files (s.reaperClose index) := by
  unfold Registry.reaperClose
  split
  · rename_i pid life hreaper
    split
    · exact h
    · rename_i hstopped
      have hnone (l : Life) (hl : s.lives[life]? = some l) : l.running = false := by
        simpa [hl] using hstopped
      have hopener := horderly _ hreaper life rfl
      have hseated := h.seated.closeJournal fun other l hl _ _ hrun hsome => by
        grind
      refine ⟨h.filed.closeJournal.congr rfl rfl rfl rfl rfl, hseated.spawned, hseated.stage, hseated.pane,
        hseated.uninserted, hseated.writing, ?_, hseated.opener⟩
      intro other l hl hin hnot hor
      refine (hseated.owned other l hl hin hnot hor).imp_right ?_
      rintro ⟨r, hr, hdrains⟩
      rw [closeJournal_reapers] at hr
      obtain ⟨j, hj⟩ := List.getElem?_of_mem hr
      have hne : index ≠ j := by
        rintro rfl
        obtain rfl := Option.some.inj (hreaper.symm.trans hj)
        obtain rfl : life = other := Option.some.inj hdrains
        have hl' : s.lives[life]? = some l := closeJournal_lives s ▸ hl
        exact hor.elim (fun hrun => absurd ((hnone l hl').symm.trans hrun) (by simp))
          fun hsome => absurd hsome (by simp [Registry.closeJournal])
      exact ⟨r, List.mem_of_getElem? (by rw [List.getElem?_set_ne hne]; exact hj), hdrains⟩
  · exact h

/-! ## §9 Runs -/

theorem Inv.step {op : Op} (horderly : s.Orderly op) (h : Inv files s) : Inv files (s.step op) := by
  cases op with
  | spawn request pid => exact h.spawn request pid
  | abandon => exact h.abandon
  | startPump => exact h.startPump
  | openJournal => exact h.openJournal horderly
  | insert => exact h.insert
  | publish life chunk => exact h.publish horderly
  | pumpEnded life => exact h.pumpEnded life
  | release => exact h.release horderly
  | releaseTake index => exact h.releaseTake index
  | releaseJoin index => exact h.releaseJoin index
  | reap index => exact h.reap index
  | reaperTake index => exact h.reaperTake index
  | reaperClose index => exact h.reaperClose horderly
  | flush => exact h.flush

theorem Inv.head (h : Inv files s) {n : Nat} (hhead : s.store.head.2 = some n) :
    ∃ (life : Nat) (l : Life) (path : String), s.opener = some life ∧ s.lives[life]? = some l ∧
      l.request.asked = some path ∧ n ≤ l.published.length ∧
      bytesOf life (s.flush.written path) = l.published.take n := by
  cases hw : s.store.writer with
  | none => simp [JournalStore.head, JournalStore.sync, hw] at hhead
  | some w =>
    obtain ⟨life, l, hlife, hl, hentry⟩ := h.filed.entry w hw
    have hflushed := hentry.flush hw
    have hn : (w.flush (s.store.files w.path)).1.flushedEnd = n := by
      simpa [JournalStore.head, JournalStore.sync, hw] using hhead
    have hnothing : (w.flush (s.store.files w.path)).1.pending = [] := by
      rw [hflushed.pending]
      simp [Registry.flush, hw]
    have hwhole := hflushed.whole
    rw [hnothing, List.append_nil] at hwhole
    have hlength := hflushed.flushed
    rw [hn, hwhole] at hlength
    refine ⟨life, l, _, hlife, hl, hflushed.asked, hlength.le, ?_⟩
    rw [hwhole, hlength, List.take_length]

theorem Inv.complete (h : Inv files s) : Complete files s where
  kept := h.filed.kept
  unreleased life l hl := (h.filed.due life l hl).2
  apart life l path hl hasked := by
    refine h.filed.stranger fun l' hl' => ?_
    obtain rfl := Option.some.inj (hl.symm.trans hl')
    exact hasked
  own b hb := by
    cases hw : s.store.writer with
    | none => exact absurd hb (by simp [(h.filed.vacant hw).2])
    | some w =>
      obtain ⟨life, l, hlife, -, hentry⟩ := h.filed.entry w hw
      rw [hentry.own b hb]
      exact hlife
  head _ := h.head
  files := h.filed.files

theorem Complete.due_journaled (h : Complete files s) (life : Nat) :
    ∀ l ∈ s.lives[life]?, ∀ path ∈ l.request.asked, l.due <+: bytesOf life (s.journaled path) :=
  fun l hl path hasked => (h.kept life l path hl hasked).1

theorem Complete.head_file (h : Complete files s) :
    ∀ n ∈ s.store.head.2, ∀ life ∈ s.opener, ∀ l ∈ s.lives[life]?, ∀ path ∈ l.request.asked,
      bytesOf life (s.flush.written path) = l.published.take n := by
  intro n hn life hlife l hl path hasked
  obtain ⟨life', l', path', hopener, hl', hasked', -, hbytes⟩ := h.head n hn
  obtain rfl := Option.some.inj (hlife.symm.trans hopener)
  obtain rfl := Option.some.inj (hl.symm.trans hl')
  obtain rfl := Option.some.inj (hasked.symm.trans hasked')
  exact hbytes

/-- In a run whose steps are orderly the transcript misses nothing. -/
theorem transcript_complete (ringCapacity : Nat) (files : String → List UInt8) {ops : List Op}
    (h : Meets step Orderly (new ringCapacity files) ops) :
    Throughout step (Complete files) (new ringCapacity files) ops :=
  (h.throughout (Inv files) (fun _ _ => Inv.step) (inv_new ringCapacity files)).imp fun _ => Inv.complete

/-- A life from its spawn to its reaper. -/
theorem transcript_complete_of_life :
    Throughout step (Complete fun _ => []) (new 4096 fun _ => [])
      [.spawn ⟨"s", some ⟨"d", 100⟩⟩ 1, .startPump, .openJournal, .insert, .publish 0 [1, 2], .flush,
        .publish 0 [3], .reap 0, .reaperTake 0, .pumpEnded 0, .reaperClose 0] :=
  transcript_complete 4096 _ (by decide +kernel)

/-- What the pump publishes before the journal is open is not in it, and
`head` counts it all the same. A reaper that drains the old life closes
the new one's entry, and what the new life publishes goes nowhere. -/
theorem transcript_incomplete :
    ¬ Complete (fun _ => []) (run step (new 4096 fun _ => [])
      [.spawn ⟨"s", some ⟨"d", 100⟩⟩ 1, .startPump, .publish 0 [7], .openJournal, .insert,
        .publish 0 [8]]) ∧
    ¬ Complete (fun _ => []) (run step (new 4096 fun _ => [])
      [.spawn ⟨"s", some ⟨"d", 100⟩⟩ 1, .startPump, .openJournal, .insert, .reap 0, .reaperTake 0,
        .spawn ⟨"s", some ⟨"d", 100⟩⟩ 2, .startPump, .openJournal, .pumpEnded 0, .reaperClose 0, .insert,
        .publish 1 [7]]) :=
  ⟨fun h => absurd h.head_file (by decide +kernel), fun h => absurd (h.due_journaled 1) (by decide +kernel)⟩

end Registry

end SlopDesk.Superd
