/-
SlopDesk.Superd.TapReports — what the block tap keeps, and what its reports
rebuild.

§1: the ring and the dedup record are one set of indices and stay within
the bounds. §2: what the segmenter hands the tap. §3: a client that folds
the reports, as long as an index names one block. §4: a reading.
-/
import SlopDesk.Superd.BlockLives
import SlopDesk.Superd.BlockTracker

namespace SlopDesk.Superd

open SlopDesk.Base

/-! ## §1 The ring -/

theorem map_index_setOutput (index : UInt32) (output : List UInt8) (held : List Held) :
    (setOutput index output held).map (·.index) = held.map (·.index) := by
  induction held with
  | nil => rfl
  | cons h held ih =>
    rw [setOutput]
    split
    · rfl
    · simp [ih]

theorem sum_setOutput {index : UInt32} {held : List Held} {existing : Held}
    (h : held.find? (·.index = index) = some existing) (output : List UInt8) :
    ((setOutput index output held).map (·.output.length)).sum + existing.output.length =
      (held.map (·.output.length)).sum + output.length := by
  induction held with
  | nil => simp at h
  | cons first held ih =>
    rw [setOutput]
    by_cases hfirst : first.index = index
    · grind
    · grind

namespace BlockTracker

theorem evictToBounds_invariant {P : BlockTracker → Prop} (hstep : ∀ t, P t → P t.evictOldest) {t : BlockTracker}
    (h : P t) : P t.evictToBounds := by
  have hcount (t : BlockTracker) (h : P t) : P t.evictToCount := by
    induction t using evictToCount.induct with
    | case1 t hover ih =>
      rw [evictToCount, dif_pos hover]
      exact ih (hstep t h)
    | case2 t hwithin =>
      rw [evictToCount, dif_neg hwithin]
      exact h
  have hbytes (t : BlockTracker) (h : P t) : P t.evictToBytes := by
    induction t using evictToBytes.induct with
    | case1 t hover ih =>
      rw [evictToBytes, dif_pos hover]
      exact ih (hstep t h)
    | case2 t hwithin =>
      rw [evictToBytes, dif_neg hwithin]
      exact h
  exact hbytes _ (hcount t h)

/-- The ring and the dedup record: the indices of the one are those of the
other, but for the block that waits to be retained. -/
structure Ring (t : BlockTracker) (waiting : Option UInt32) : Prop where
  nodup : (t.held.map (·.index)).Nodup
  total : t.totalOutputBytes = (t.held.map (·.output.length)).sum
  known : ∀ k, (t.lastReported.lookup k).isSome ↔ k ∈ t.held.map (·.index) ∨ waiting = some k
  keyed : ∀ k m, t.lastReported.lookup k = some m → m.index = k

/-- The two ceilings. -/
structure Bounded (t : BlockTracker) : Prop where
  count : t.held.length ≤ t.maxBlocks
  bytes : t.totalOutputBytes ≤ t.maxTotalOutputBytes ∨ t.held.length = 1

variable {t : BlockTracker} {waiting : Option UInt32} {block : CommandBlock}

theorem Ring.evictOldest (h : Ring t none) : Ring t.evictOldest none := by
  unfold BlockTracker.evictOldest
  cases hheld : t.held with
  | nil => exact h
  | cons gone held =>
    obtain ⟨hnodup, htotal, hknown, hkeyed⟩ := h
    rw [hheld] at hnodup htotal hknown
    rw [List.map_cons, List.nodup_cons] at hnodup
    refine ⟨hnodup.2, ?_, ?_, ?_⟩
    · simp [htotal]
    · intro k
      dsimp only
      rw [HashMap.lookup_erase]
      by_cases hk : k = gone.index
      · subst hk
        simpa using hnodup.1
      · simpa [hk] using hknown k
    · grind [HashMap.lookup_erase]

theorem evictToBounds_fixed (t : BlockTracker) : t.evictToBounds.segmenter = t.segmenter ∧
    t.evictToBounds.maxBlocks = t.maxBlocks ∧ t.evictToBounds.maxTotalOutputBytes = t.maxTotalOutputBytes := by
  have hstep (u : BlockTracker) : u.evictOldest.segmenter = u.segmenter ∧ u.evictOldest.maxBlocks = u.maxBlocks ∧
      u.evictOldest.maxTotalOutputBytes = u.maxTotalOutputBytes := by
    grind [BlockTracker.evictOldest]
  exact evictToBounds_invariant (P := fun u => u.segmenter = t.segmenter ∧ u.maxBlocks = t.maxBlocks ∧
    u.maxTotalOutputBytes = t.maxTotalOutputBytes)
    (fun u ⟨hs, hb, ho⟩ => ⟨(hstep u).1.trans hs, (hstep u).2.1.trans hb, (hstep u).2.2.trans ho⟩) ⟨rfl, rfl, rfl⟩

theorem Ring.evictToBounds (h : Ring t none) (hroom : 0 < t.maxBlocks) :
    Ring t.evictToBounds none ∧ Bounded t.evictToBounds := by
  have hring := evictToBounds_invariant (P := fun t => Ring t none) (fun _ h => h.evictOldest) h
  have hcount : t.evictToCount.held.length ≤ t.evictToCount.maxBlocks := by
    clear h hring
    induction t using evictToCount.induct with
    | case1 t hover ih =>
      rw [evictToCount, dif_pos hover]
      refine ih ?_
      unfold BlockTracker.evictOldest
      split <;> exact hroom
    | case2 t hwithin =>
      rw [evictToCount, dif_neg hwithin]
      by_cases hnil : t.held = []
      · simp [hnil]
      · grind
  have hbytes (t : BlockTracker) (hcount : t.held.length ≤ t.maxBlocks) :
      t.evictToBytes.held.length ≤ t.evictToBytes.maxBlocks ∧
        (t.evictToBytes.totalOutputBytes ≤ t.evictToBytes.maxTotalOutputBytes ∨ t.evictToBytes.held.length ≤ 1) := by
    induction t using evictToBytes.induct with
    | case1 t hover ih =>
      rw [evictToBytes, dif_pos hover]
      refine ih ?_
      unfold BlockTracker.evictOldest
      split
      · exact hcount
      · grind
    | case2 t hwithin =>
      rw [evictToBytes, dif_neg hwithin]
      exact ⟨hcount, by omega⟩
  obtain ⟨hwithin, hceiling⟩ := hbytes _ hcount
  refine ⟨hring, hwithin, ?_⟩
  rcases hceiling with hceiling | hone
  · exact .inl hceiling
  · rcases Nat.le_one_iff_eq_zero_or_eq_one.mp hone with hnone | hone
    · refine .inl ?_
      have hnil : t.evictToBounds.held = [] := List.length_eq_zero_iff.mp hnone
      have htotal := hring.total
      rw [hnil] at htotal
      exact htotal.trans_le (Nat.zero_le _)
    · exact .inr hone

theorem Ring.reportIfChanged (h : Ring t waiting) (hwaiting : ∀ k ∈ waiting, k = u32OrMax block.index) :
    Ring (t.reportIfChanged block).1 (some (u32OrMax block.index)) := by
  obtain ⟨hnodup, htotal, hknown, hkeyed⟩ := h
  refine ⟨hnodup, htotal, ?_, ?_⟩
  · intro k
    simp only [BlockTracker.reportIfChanged, CommandBlock.blockMeta]
    rw [HashMap.lookup_insert]
    split
    · rename_i hk
      simp [hk]
    · rename_i hk
      rw [hknown]
      constructor
      · rintro (hheld | hsome)
        · exact .inl hheld
        · exact absurd (hwaiting k hsome) hk
      · grind
  · grind [BlockTracker.reportIfChanged, CommandBlock.blockMeta, HashMap.lookup_insert]

theorem Ring.push (h : Ring t (some (u32OrMax block.index))) (hfresh : u32OrMax block.index ∉ t.held.map (·.index)) :
    Ring { t with
      totalOutputBytes := t.totalOutputBytes + block.output.length
      held := t.held ++ [⟨u32OrMax block.index, block.output⟩] } none := by
  obtain ⟨hnodup, htotal, hknown, hkeyed⟩ := h
  refine ⟨?_, ?_, ?_, hkeyed⟩
  · simpa using List.Nodup.concat hfresh hnodup
  · simp [htotal]
  · intro k
    rw [hknown]
    simp [eq_comm]

theorem Ring.store (h : Ring t (some (u32OrMax block.index))) (hroom : 0 < t.maxBlocks) :
    Ring (t.store block) none ∧ Bounded (t.store block) := by
  unfold BlockTracker.store
  dsimp only
  split
  · rename_i existing hfind
    obtain ⟨hnodup, htotal, hknown, hkeyed⟩ := h
    have hsum := sum_setOutput hfind block.output
    have hmem : u32OrMax block.index ∈ t.held.map (·.index) := by
      grind
    have hpart := sum_setOutput hfind []
    refine Ring.evictToBounds ⟨?_, ?_, ?_, hkeyed⟩ hroom
    · rw [map_index_setOutput]
      exact hnodup
    · rw [List.length_nil] at hpart
      dsimp only
      omega
    · intro k
      rw [map_index_setOutput, hknown]
      constructor
      · grind
      · grind
  · rename_i hfind
    have hfresh : u32OrMax block.index ∉ t.held.map (·.index) := by
      grind
    exact (h.push hfresh).evictToBounds hroom

end BlockTracker

/-! ## §2 The segmenter's side -/

namespace CommandBlockSegmenter

variable {s : CommandBlockSegmenter} {blocks : List CommandBlock} {handed : List SyntheticProgress}

theorem peekOpenBlock_eq (s : CommandBlockSegmenter) :
    (s.peekOpenBlock = none ∧ ¬ (s.hasOpenBlock = true ∧ s.phase = .output)) ∨
      ∃ block, s.peekOpenBlock = some block ∧ (s.hasOpenBlock = true ∧ s.phase = .output) ∧
        block.index = s.nextIndex ∧ block.durationMs = none ∧ block.complete = false := by
  unfold peekOpenBlock
  cases hopen : s.hasOpenBlock with
  | false => exact .inl ⟨by simp, by simp⟩
  | true =>
    grind

theorem onMark_running (nowMs : Int64) (m : Mark) (hopen : s.hasOpenBlock = true) (hphase : s.phase = .output)
    (hnone : (s.onMark nowMs m).2 = []) :
    (s.onMark nowMs m).1.hasOpenBlock = true ∧ (s.onMark nowMs m).1.phase = .output := by
  cases m with
  | progress => exact ⟨hopen, hphase⟩
  | promptStart fields =>
    simp only [onMark, onPromptStart, closeOrDiscardOpen, takeOpenBlock, hopen, hphase, if_true] at hnone
    split at hnone <;> contradiction
  | commandStart =>
    simp only [onMark, onCommandStart, closeOrDiscardOpen, takeOpenBlock, hopen, hphase, if_true] at hnone
    contradiction
  | explicitCommand fields => simp [onMark, onExplicitCommand, hopen, hphase]
  | outputStart =>
    simp only [onMark, onOutputStart, hopen, if_true]
    split <;> exact ⟨rfl, rfl⟩
  | commandFinished fields =>
    simp only [onMark, onCommandFinished, takeOpenBlock, hopen, hphase, if_true] at hnone
    contradiction

theorem step_running (nowMs : Int64) (byte : UInt8) (hopen : s.hasOpenBlock = true) (hphase : s.phase = .output)
    (hnone : (s.step nowMs byte).2 = []) :
    (s.step nowMs byte).1.hasOpenBlock = true ∧ (s.step nowMs byte).1.phase = .output := by
  rcases step_marks nowMs s byte with ⟨hsame, -⟩ | ⟨hsame, hblocks⟩
  · rw [hsame.rest]
    exact ⟨hopen, hphase⟩
  · rw [hblocks, finishOsc_eq] at hnone
    rw [hsame.rest, finishOsc_eq]
    cases hmark : markOf s.oscBuffer with
    | none => exact ⟨hopen, hphase⟩
    | some m =>
      rw [hmark] at hnone
      exact onMark_running nowMs m (s := s.taken) hopen hphase hnone

theorem durations {spans : List (Span Mark)} (h : List.Forall₂ Ran spans blocks) :
    ∀ block ∈ blocks, block.durationMs.isSome := by
  induction h with
  | nil => simp
  | cons hran _ ih => simpa using ⟨hran.duration, ih⟩

/-- What one chunk closes: the next indices, each with a duration; and a
command that it does not close keeps running. -/
theorem Alive.ingest_closes (h : Alive s blocks handed) (nowMs : Int64) (bytes : List UInt8) :
    (s.ingest nowMs bytes).2.map (·.index) = List.range' s.nextIndex (s.ingest nowMs bytes).2.length ∧
      (s.ingest nowMs bytes).1.nextIndex = s.nextIndex + (s.ingest nowMs bytes).2.length ∧
      (∀ block ∈ (s.ingest nowMs bytes).2, block.durationMs.isSome) ∧
      (s.peekOpenBlock.isSome → (s.ingest nowMs bytes).2 = [] → (s.ingest nowMs bytes).1.peekOpenBlock.isSome) := by
  have hafter := (h.ingest nowMs bytes).lifecycle
  generalize hclosed : (s.ingest nowMs bytes).2 = closed at hafter ⊢
  have hindices := h.lifecycle.indices
  have hindices' := hafter.indices
  have hcount : s.nextIndex = blocks.length := by simpa using (congrArg List.length hindices).symm
  have hcount' : (s.ingest nowMs bytes).1.nextIndex = s.nextIndex + closed.length := by
    grind [List.length_map, List.length_append, List.length_range]
  refine ⟨?_, hcount', ?_, ?_⟩
  · rw [List.map_append, hindices, hcount', List.range_add] at hindices'
    have hclosed := List.append_cancel_left hindices'
    rw [hclosed, List.range'_eq_map_range]
  · intro block hblock
    exact durations hafter.ran block (List.mem_append_right _ hblock)
  · intro hrunning hnone
    have hexecuting (u : CommandBlockSegmenter) : u.peekOpenBlock.isSome ↔ u.hasOpenBlock = true ∧ u.phase = .output := by
      rcases peekOpenBlock_eq u with ⟨hpeek, hnot⟩ | ⟨block, hpeek, hyes, -⟩
      · simp [hpeek, hnot]
      · simp [hpeek, hyes]
    rw [hexecuting] at hrunning ⊢
    rw [ingest_eq_feed] at hclosed ⊢
    have hrun := feed_history
      (fun s closed => closed = [] → s.hasOpenBlock = true ∧ s.phase = .output)
      (fun s closed byte hkeeps hquiet => by
        obtain ⟨hout, hstep⟩ := List.append_eq_nil_iff.mp hquiet
        obtain ⟨hopen, hphase⟩ := hkeeps hout
        exact step_running nowMs byte hopen hphase hstep)
      (s := s) (fun _ : ([] : List CommandBlock) = [] => hrunning) bytes
    exact hrun (hclosed.trans hnone)

end CommandBlockSegmenter

/-! ## §3 A client -/

theorem toNat_u32OrMax {n : Nat} (h : n < 4294967296) : (u32OrMax n).toNat = n := by
  rw [u32OrMax, if_pos (by omega)]
  exact UInt32.toNat_ofNat_of_lt h

/-- The control record of a block that closed. -/
def CommandBlock.control (block : CommandBlock) : ControlBlock :=
  ⟨u32OrMax block.index, block.commandText, block.exitCode, block.durationMs, block.complete, block.output⟩

namespace BlockTracker

/-- A client that keeps the last record of each index. -/
def tell (told : HashMap UInt32 BlockMeta) : BlockEvent → HashMap UInt32 BlockMeta
  | .blockMeta m => told.insert m.index m
  | .progress _ => told

/-- The records alone. -/
def hear (told : HashMap UInt32 BlockMeta) (records : List BlockMeta) : HashMap UInt32 BlockMeta :=
  records.foldl (fun told m => told.insert m.index m) told

theorem hear_append (told : HashMap UInt32 BlockMeta) (records more : List BlockMeta) :
    hear told (records ++ more) = hear (hear told records) more := List.foldl_append

theorem foldl_tell (told : HashMap UInt32 BlockMeta) (progress : List SyntheticProgress) (records : List BlockMeta) :
    (progress.map BlockEvent.progress ++ records.map BlockEvent.blockMeta).foldl tell told = hear told records := by
  have hsilent : (progress.map BlockEvent.progress).foldl tell told = told := by
    induction progress with
    | nil => rfl
    | cons p progress ih => exact ih
  rw [List.foldl_append, hsilent, List.foldl_map]
  rfl

/-- Two records that differ in no more than the output's length. -/
def SameButLength (heard m : BlockMeta) : Prop := { heard with outputLen := m.outputLen } = m

/-- What a client holds, and what the ring says of the blocks it keeps. -/
structure Faithful (t : BlockTracker) (blocks : List CommandBlock) (told : HashMap UInt32 BlockMeta)
    (waiting : Option UInt32) : Prop where
  own : ∀ h ∈ t.held, ∃ block ∈ blocks, u32OrMax block.index = h.index ∧ block.output = h.output ∧
    t.lastReported.lookup h.index = some block.blockMeta
  told : ∀ k m, t.lastReported.lookup k = some m →
    ∃ heard, told.lookup k = some heard ∧ (heard = m ∨ (waiting = some k ∧ SameButLength heard m))
  waits : ∀ k m, waiting = some k → t.lastReported.lookup k = some m → m.durationMs = none ∧ m.complete = false

variable {t : BlockTracker} {waiting : Option UInt32} {block : CommandBlock} {blocks : List CommandBlock}
  {told : HashMap UInt32 BlockMeta}

theorem Faithful.evictOldest (h : Faithful t blocks told none) (hring : Ring t none) :
    Faithful t.evictOldest blocks told none := by
  unfold BlockTracker.evictOldest
  cases hheld : t.held with
  | nil => exact h
  | cons gone held =>
    obtain ⟨hown, htold, -⟩ := h
    have hnodup := hring.nodup
    rw [hheld] at hown hnodup
    rw [List.map_cons, List.nodup_cons] at hnodup
    refine ⟨?_, ?_, by simp⟩
    · intro kept hkept
      have hne : kept.index ≠ gone.index := fun heq => hnodup.1 (heq ▸ List.mem_map_of_mem hkept)
      dsimp only
      rw [HashMap.lookup_erase, if_neg hne]
      exact hown kept (List.mem_cons_of_mem _ hkept)
    · grind [HashMap.lookup_erase]

section

variable (h : Faithful t blocks told waiting)
include h

theorem reportIfChanged_closed (hring : Ring t waiting)
    (hfresh : u32OrMax block.index ∉ t.held.map (·.index)) (hduration : block.durationMs.isSome) :
    (t.reportIfChanged block).2 = some block.blockMeta := by
  unfold BlockTracker.reportIfChanged
  cases hlast : t.lastReported.lookup (u32OrMax block.index) with
  | none => simp [CommandBlock.blockMeta, hlast]
  | some last =>
    have hwaiting : waiting = some (u32OrMax block.index) := by
      rcases (hring.known _).mp (Option.isSome_iff_exists.mpr ⟨last, hlast⟩) with hheld | hwaiting
      · exact absurd hheld hfresh
      · exact hwaiting
    obtain ⟨hnone, hincomplete⟩ := h.waits _ last hwaiting hlast
    have hchanged : last.durationMs ≠ block.durationMs := by
      grind
    have hmeaning : meaningfullyChanged last block.blockMeta = true := by
      unfold meaningfullyChanged
      split
      · grind
      · simp [CommandBlock.blockMeta, hchanged]
    have hfound : t.lastReported.lookup block.blockMeta.index = some last := hlast
    simp [hfound, hmeaning]

theorem Faithful.said (hwaiting : ∀ k ∈ waiting, k = u32OrMax block.index)
    (hfresh : u32OrMax block.index ∉ t.held.map (·.index)) {told' : HashMap UInt32 BlockMeta} {waiting' : Option UInt32}
    (htold' : ∀ k, k ≠ u32OrMax block.index → told'.lookup k = told.lookup k)
    (hsaid : ∃ heard, told'.lookup (u32OrMax block.index) = some heard ∧
      (heard = block.blockMeta ∨ (waiting' = some (u32OrMax block.index) ∧ SameButLength heard block.blockMeta)))
    (hwaits : ∀ k, waiting' = some k → k = u32OrMax block.index ∧ block.durationMs = none ∧ block.complete = false) :
    Faithful (t.reportIfChanged block).1 blocks told' waiting' := by
  have hlookup (k : UInt32) : (t.reportIfChanged block).1.lastReported.lookup k =
      if k = u32OrMax block.index then some block.blockMeta else t.lastReported.lookup k :=
    HashMap.lookup_insert _ _ _ _
  refine ⟨?_, ?_, ?_⟩
  · intro kept hkept
    have hne : kept.index ≠ u32OrMax block.index := fun heq => hfresh (heq ▸ List.mem_map_of_mem hkept)
    rw [hlookup, if_neg hne]
    exact h.own kept hkept
  · intro k m hm
    rw [hlookup] at hm
    by_cases hk : k = u32OrMax block.index
    · grind
    · rw [if_neg hk] at hm
      obtain ⟨heard, hheard, heq | ⟨hsome, -⟩⟩ := h.told k m hm
      · exact ⟨heard, (htold' k hk).trans hheard, .inl heq⟩
      · exact absurd (hwaiting k hsome) hk
  · intro k m hsome hm
    obtain ⟨rfl, hwaits⟩ := hwaits k hsome
    rw [hlookup, if_pos rfl] at hm
    exact Option.some.inj hm ▸ hwaits

theorem Faithful.close (hring : Ring t waiting)
    (hwaiting : ∀ k ∈ waiting, k = u32OrMax block.index) (hfresh : u32OrMax block.index ∉ t.held.map (·.index))
    (hduration : block.durationMs.isSome) :
    Faithful (t.close block).1 (blocks ++ [block]) (hear told (t.close block).2) none := by
  have hsaid := reportIfChanged_closed h hring hfresh hduration
  have hreported := hring.reportIfChanged hwaiting
  have hfaithful : Faithful (t.reportIfChanged block).1 blocks (told.insert (u32OrMax block.index) block.blockMeta) none := by
    refine h.said hwaiting hfresh (fun k hk => ?_) ⟨block.blockMeta, ?_, .inl rfl⟩ (by simp)
    · rw [HashMap.lookup_insert, if_neg hk]
    · rw [HashMap.lookup_insert, if_pos rfl]
  have hheard : hear told (t.close block).2 = told.insert (u32OrMax block.index) block.blockMeta := by
    simp only [BlockTracker.close, hsaid]
    rfl
  have hstore : (t.close block).1 = (t.reportIfChanged block).1.store block := rfl
  have hheld : (t.reportIfChanged block).1.held = t.held := rfl
  have hlast : (t.reportIfChanged block).1.lastReported.lookup (u32OrMax block.index) = some block.blockMeta :=
    AList.lookup_insert _
  generalize (t.reportIfChanged block).1 = u at hreported hfaithful hstore hheld hlast
  have hnofind : u.held.find? (·.index = u32OrMax block.index) = none := by
    grind
  rw [hheard, hstore, BlockTracker.store, hnofind]
  refine (evictToBounds_invariant
    (P := fun u => Ring u none ∧ Faithful u (blocks ++ [block]) (told.insert (u32OrMax block.index) block.blockMeta) none)
    (fun _ ⟨hring, h⟩ => ⟨hring.evictOldest, h.evictOldest hring⟩) ⟨hreported.push (hheld ▸ hfresh), ?_, hfaithful.told, ?_⟩).2
  · intro kept hkept
    rcases List.mem_append.mp hkept with hkept | hkept
    · obtain ⟨old, hold, hown⟩ := hfaithful.own kept hkept
      exact ⟨old, List.mem_append_left _ hold, hown⟩
    · grind
  · simp

end

/-- A running block differs from what was last said of it, or in no more
than its length. -/
theorem meaningfullyChanged_false {last m : BlockMeta} (hlast : last.complete = false) (hm : m.complete = false)
    (hindex : last.index = m.index) (h : meaningfullyChanged last m = false) : SameButLength last m := by
  simp only [meaningfullyChanged, hlast, hm, Bool.or_self, Bool.false_eq_true, if_false, Bool.or_eq_false_iff,
    decide_eq_false_iff_not, ne_eq, not_not] at h
  obtain ⟨⟨⟨hexit, hduration⟩, htext⟩, hordinal⟩ := h
  cases last
  cases m
  simp_all [SameButLength]

theorem SameButLength.trans {heard last m : BlockMeta} (h : SameButLength heard last) (h' : SameButLength last m) :
    SameButLength heard m := by
  unfold SameButLength at *
  rw [← h'] at *
  rw [← h]

theorem Faithful.running (h : Faithful t blocks told waiting) (hring : Ring t waiting)
    (hwaiting : ∀ k ∈ waiting, k = u32OrMax block.index) (hfresh : u32OrMax block.index ∉ t.held.map (·.index))
    (hduration : block.durationMs = none) (hcomplete : block.complete = false) :
    Faithful (t.reportIfChanged block).1 blocks (hear told (t.reportIfChanged block).2.toList)
      (some (u32OrMax block.index)) := by
  have hwaits (k : UInt32) (hk : some (u32OrMax block.index) = some k) :
      k = u32OrMax block.index ∧ block.durationMs = none ∧ block.complete = false :=
    ⟨(Option.some.inj hk).symm, hduration, hcomplete⟩
  have hreport (worthSaying : Bool)
      (hworth : ((t.lastReported.lookup (u32OrMax block.index)).map (meaningfullyChanged · block.blockMeta)).getD true =
        worthSaying) : (t.reportIfChanged block).2 = if worthSaying then some block.blockMeta else none := by
    rw [← hworth]
    rfl
  cases hworth : ((t.lastReported.lookup (u32OrMax block.index)).map (meaningfullyChanged · block.blockMeta)).getD true with
  | true =>
    rw [hreport true hworth]
    refine h.said hwaiting hfresh (fun k hk => ?_) ⟨block.blockMeta, ?_, .inl rfl⟩ hwaits
    · exact (HashMap.lookup_insert _ _ _ _).trans (if_neg hk)
    · exact (HashMap.lookup_insert _ _ _ _).trans (if_pos rfl)
  | false =>
    rw [hreport false hworth]
    refine h.said hwaiting hfresh (fun k _ => rfl) ?_ hwaits
    cases hlast : t.lastReported.lookup (u32OrMax block.index) with
    | none => simp [hlast] at hworth
    | some last =>
      rw [hlast] at hworth
      obtain ⟨heard, hheard, hsame⟩ := h.told _ last hlast
      have hwaiting : waiting = some (u32OrMax block.index) := by
        rcases (hring.known _).mp (Option.isSome_iff_exists.mpr ⟨last, hlast⟩) with hheld | hwaiting
        · exact absurd hheld hfresh
        · exact hwaiting
      obtain ⟨-, hincomplete⟩ := h.waits _ last hwaiting hlast
      have hunchanged := meaningfullyChanged_false hincomplete hcomplete (hring.keyed _ last hlast) hworth
      refine ⟨heard, hheard, .inr ⟨rfl, ?_⟩⟩
      rcases hsame with rfl | ⟨-, hsame⟩
      · exact hunchanged
      · exact hsame.trans hunchanged

/-! ## §4 A reading -/

theorem close_fixed (t : BlockTracker) (block : CommandBlock) : (t.close block).1.segmenter = t.segmenter ∧
    (t.close block).1.maxBlocks = t.maxBlocks ∧ (t.close block).1.maxTotalOutputBytes = t.maxTotalOutputBytes := by
  simp only [close, store]
  split <;> exact evictToBounds_fixed _

theorem feed_close_fixed (t : BlockTracker) (closed : List CommandBlock) :
    (feed close t closed).1.segmenter = t.segmenter ∧ (feed close t closed).1.maxBlocks = t.maxBlocks ∧
      (feed close t closed).1.maxTotalOutputBytes = t.maxTotalOutputBytes :=
  feed_invariant (fun u => u.segmenter = t.segmenter ∧ u.maxBlocks = t.maxBlocks ∧
    u.maxTotalOutputBytes = t.maxTotalOutputBytes)
    (fun u block ⟨hs, hb, ho⟩ => ⟨(close_fixed u block).1.trans hs, (close_fixed u block).2.1.trans hb,
      (close_fixed u block).2.2.trans ho⟩) ⟨rfl, rfl, rfl⟩ closed

/-- Everything that holds of a tap that has closed the blocks it has, the
next one's index being `n`. An index names one block as long as it fits. -/
structure Tap (t : BlockTracker) (n : Nat) (blocks : List CommandBlock) (told : HashMap UInt32 BlockMeta)
    (waiting : Option UInt32) : Prop where
  room : 0 < t.maxBlocks
  ring : Ring t waiting
  bounded : Bounded t
  next : ∀ k ∈ waiting, k = u32OrMax n
  older : ∀ block ∈ blocks, block.index < n
  faithful : n + waiting.toList.length ≤ 4294967296 → Faithful t blocks told waiting

variable {n : Nat}

section

variable (h : Tap t n blocks told waiting)
include h

theorem Tap.fresh (hfits : n < 4294967296) : u32OrMax n ∉ t.held.map (·.index) := by
  intro hmem
  obtain ⟨kept, hkept, hindex⟩ := List.mem_map.mp hmem
  have hone : waiting.toList.length ≤ 1 := Option.length_toList_le
  obtain ⟨block, hblock, hkey, -⟩ := (h.faithful (by omega)).own kept hkept
  have holder := h.older block hblock
  have hsame := congrArg UInt32.toNat (hkey.trans hindex)
  rw [toNat_u32OrMax (by omega), toNat_u32OrMax hfits] at hsame
  omega

theorem Tap.close (hindex : block.index = n) (hduration : block.durationMs.isSome) :
    Tap (t.close block).1 (n + 1) (blocks ++ [block]) (hear told (t.close block).2) none := by
  subst hindex
  have hfixed : (t.close block).1.maxBlocks = t.maxBlocks := (close_fixed t block).2.1
  obtain ⟨hring, hbounded⟩ := (h.ring.reportIfChanged h.next).store h.room
  refine ⟨hfixed ▸ h.room, hring, hbounded, by simp, ?_, ?_⟩
  · intro old hold
    rcases List.mem_append.mp hold with hold | hold
    · exact Nat.lt_succ_of_lt (h.older old hold)
    · grind
  · intro hfits
    have hone : waiting.toList.length ≤ 1 := Option.length_toList_le
    exact (h.faithful (by simp at hfits; omega)).close h.ring h.next (h.fresh (by simp at hfits; omega)) hduration

theorem Tap.running (hindex : block.index = n) (hduration : block.durationMs = none)
    (hcomplete : block.complete = false) :
    Tap (t.reportIfChanged block).1 n blocks (hear told (t.reportIfChanged block).2.toList) (some (u32OrMax n)) := by
  subst hindex
  refine ⟨h.room, h.ring.reportIfChanged h.next, ⟨h.bounded.count, h.bounded.bytes⟩, by simp, h.older, ?_⟩
  intro hfits
  have hone : waiting.toList.length ≤ 1 := Option.length_toList_le
  simp only [Option.toList_some, List.length_singleton] at hfits
  exact (h.faithful (by omega)).running h.ring h.next (h.fresh (by omega)) hduration hcomplete

theorem Tap.closeAll {closed : List CommandBlock}
    (hindices : closed.map (·.index) = List.range' n closed.length) (hdurations : ∀ block ∈ closed, block.durationMs.isSome) :
    Tap (feed BlockTracker.close t closed).1 (n + closed.length) (blocks ++ closed)
      (hear told (feed BlockTracker.close t closed).2) (if closed = [] then waiting else none) := by
  induction closed generalizing t n blocks told waiting with
  | nil => simpa [hear] using h
  | cons block closed ih =>
    simp only [List.map_cons, List.length_cons, List.range'_succ, List.cons.injEq] at hindices
    have hclose := h.close hindices.1 (hdurations block (by simp))
    have hrest := ih hclose hindices.2 fun later hlater => hdurations later (by simp [hlater])
    simpa [hear_append, Nat.add_comm, Nat.add_left_comm] using hrest

end

/-- The index of the command that is running, as it is reported. -/
def running (t : BlockTracker) : Option UInt32 := t.openBlock.map (u32OrMax ·.index)

/-- A tap whose segmenter has given the blocks it has closed. -/
structure Follows (t : BlockTracker) (blocks : List CommandBlock) (told : HashMap UInt32 BlockMeta) : Prop where
  alive : ∃ handed, CommandBlockSegmenter.Alive t.segmenter blocks handed
  tap : Tap t t.segmenter.nextIndex blocks told t.running

theorem Follows.ingest (h : Follows t blocks told) (chunk : List UInt8) (nowMs : Int64) :
    Follows (t.ingest chunk nowMs).1 (blocks ++ (t.segmenter.ingest nowMs chunk).2)
      ((t.ingest chunk nowMs).2.foldl tell told) := by
  obtain ⟨⟨handed, halive⟩, htap⟩ := h
  obtain ⟨hindices, hnext, hdurations, hkeeps⟩ := halive.ingest_closes nowMs chunk
  have halive' := (halive.ingest nowMs chunk).drainAutoProgress
  unfold BlockTracker.ingest
  dsimp only
  generalize hclosed : (t.segmenter.ingest nowMs chunk).2 = closed at *
  generalize hsegmenter : (t.segmenter.ingest nowMs chunk).1.drainAutoProgress.1 = segmenter at *
  have hcount : segmenter.nextIndex = t.segmenter.nextIndex + closed.length := by
    rw [← hsegmenter, ← hnext]
    rfl
  have hpeek : segmenter.peekOpenBlock = (t.segmenter.ingest nowMs chunk).1.peekOpenBlock := by
    rw [← hsegmenter]
    rfl
  -- the segmenter is no part of what a tap keeps
  have hbefore : Tap { t with segmenter } t.segmenter.nextIndex blocks told t.running := by
    obtain ⟨hroom, ⟨hnodup, htotal, hknown, hkeyed⟩, ⟨hcount, hbytes⟩, hwaiting, holder, hfaithful⟩ := htap
    refine ⟨hroom, ⟨hnodup, htotal, hknown, hkeyed⟩, ⟨hcount, hbytes⟩, hwaiting, holder, fun hfits => ?_⟩
    obtain ⟨hown, htold, hwaits⟩ := hfaithful hfits
    exact ⟨hown, htold, hwaits⟩
  have hafter := hbefore.closeAll hindices hdurations
  have hfixed := (feed_close_fixed { t with segmenter } closed).1
  rw [foldl_tell, hear_append, ← hcount] at *
  generalize feed BlockTracker.close { t with segmenter } closed = fed at *
  obtain ⟨u, said⟩ := fed
  dsimp only at hfixed hafter ⊢
  subst hfixed
  rcases u.segmenter.peekOpenBlock_eq with ⟨hnone, -⟩ | ⟨block, hblock, -, hindex, hduration, hcomplete⟩
  · have hidle : (if closed = [] then t.running else none) = none := by
      split
      · rename_i hnil
        cases hrunning : t.segmenter.peekOpenBlock with
        | none => simp [running, openBlock, hrunning]
        | some old =>
          grind
      · rfl
    simp only [reportOpen, hnone]
    refine ⟨⟨_, halive'⟩, ?_⟩
    rw [hidle] at hafter
    simpa [running, openBlock, hnone, hear] using hafter
  · have hrunning := hafter.running hindex hduration hcomplete
    simp only [reportOpen, hblock]
    refine ⟨⟨_, halive'⟩, ?_⟩
    have hopen : (u.reportIfChanged block).1.running = some (u32OrMax u.segmenter.nextIndex) := by
      simp [running, openBlock, reportIfChanged, hblock, hindex]
    rw [hopen]
    exact hrunning

/-- The calls a tap makes of its segmenter for some chunks and their clocks. -/
def calls (chunks : List (Int64 × List UInt8)) : List CommandBlockSegmenter.Call :=
  chunks.flatMap fun (nowMs, chunk) => [.ingest nowMs chunk, .drainAutoProgress]

/-- The blocks that close in those chunks. -/
def closedBlocks (autoProgressPrefixes : List String) (outputCap : Nat) (chunks : List (Int64 × List UInt8)) :
    List CommandBlock :=
  (feed CommandBlockSegmenter.serve (.new outputCap autoProgressPrefixes) (calls chunks)).2.filterMap Sum.getLeft?

/-- A tap's reading of some chunks. -/
def read (t : BlockTracker) (chunks : List (Int64 × List UInt8)) : BlockTracker × List BlockEvent :=
  feed (fun t (nowMs, chunk) => t.ingest chunk nowMs) t chunks

theorem ingest_fixed (t : BlockTracker) (chunk : List UInt8) (nowMs : Int64) :
    (t.ingest chunk nowMs).1.segmenter = (t.segmenter.ingest nowMs chunk).1.drainAutoProgress.1 ∧
      (t.ingest chunk nowMs).1.maxBlocks = t.maxBlocks ∧
      (t.ingest chunk nowMs).1.maxTotalOutputBytes = t.maxTotalOutputBytes := by
  have hopen (u : BlockTracker) : u.reportOpen.1.segmenter = u.segmenter ∧ u.reportOpen.1.maxBlocks = u.maxBlocks ∧
      u.reportOpen.1.maxTotalOutputBytes = u.maxTotalOutputBytes := by
    unfold reportOpen
    split <;> exact ⟨rfl, rfl, rfl⟩
  obtain ⟨hsegmenter, hblocks, hbytes⟩ := feed_close_fixed
    { t with segmenter := (t.segmenter.ingest nowMs chunk).1.drainAutoProgress.1 } (t.segmenter.ingest nowMs chunk).2
  unfold BlockTracker.ingest
  dsimp only
  exact ⟨(hopen _).1.trans hsegmenter, (hopen _).2.1.trans hblocks, (hopen _).2.2.trans hbytes⟩

theorem read_append_singleton (t : BlockTracker) (chunks : List (Int64 × List UInt8)) (nowMs : Int64) (chunk : List UInt8) :
    t.read (chunks ++ [(nowMs, chunk)]) =
      (((t.read chunks).1.ingest chunk nowMs).1, (t.read chunks).2 ++ ((t.read chunks).1.ingest chunk nowMs).2) := by
  rw [read, feed_append, feed_singleton]
  rfl

theorem calls_append_singleton (chunks : List (Int64 × List UInt8)) (nowMs : Int64) (chunk : List UInt8) :
    calls (chunks ++ [(nowMs, chunk)]) = calls chunks ++ [.ingest nowMs chunk, .drainAutoProgress] := by
  simp [calls]

theorem closedBlocks_append_singleton (autoProgressPrefixes : List String) (outputCap : Nat)
    (chunks : List (Int64 × List UInt8)) (nowMs : Int64) (chunk : List UInt8) :
    closedBlocks autoProgressPrefixes outputCap (chunks ++ [(nowMs, chunk)]) =
      closedBlocks autoProgressPrefixes outputCap chunks ++
        ((feed CommandBlockSegmenter.serve (.new outputCap autoProgressPrefixes) (calls chunks)).1.ingest nowMs
          chunk).2 := by
  simp [closedBlocks, calls_append_singleton, feed_append, CommandBlockSegmenter.serve, Function.comp_def]

theorem follows_read (autoProgressPrefixes : List String) (outputCap maxBlocks maxTotalOutputBytes : Nat)
    (chunks : List (Int64 × List UInt8)) :
    let read := read (.new autoProgressPrefixes outputCap maxBlocks maxTotalOutputBytes) chunks
    Follows read.1 (closedBlocks autoProgressPrefixes outputCap chunks) (read.2.foldl tell ∅) ∧
      read.1.segmenter = (feed CommandBlockSegmenter.serve (.new outputCap autoProgressPrefixes) (calls chunks)).1 := by
  induction chunks using List.reverseRecOn with
  | nil =>
    refine ⟨⟨⟨[], CommandBlockSegmenter.Alive.new outputCap autoProgressPrefixes⟩, ?_⟩, rfl⟩
    have hroom (bound default : Nat) (hdefault : 0 < default) : 0 < if bound = 0 then default else bound := by
      split <;> omega
    refine ⟨hroom _ _ (by decide), ⟨by simp [read, new], rfl, ?_, ?_⟩, ⟨Nat.zero_le _, .inl (Nat.zero_le _)⟩, ?_, by
      simp [closedBlocks, calls], fun _ => ⟨by simp [read, new], ?_, ?_⟩⟩
    all_goals simp [read, new, running, openBlock, CommandBlockSegmenter.peekOpenBlock, CommandBlockSegmenter.new]
  | append_singleton chunks chunk ih =>
    obtain ⟨hfollows, hsegmenter⟩ := ih
    obtain ⟨nowMs, chunk⟩ := chunk
    have hnext := hfollows.ingest chunk nowMs
    rw [read_append_singleton, closedBlocks_append_singleton]
    dsimp only
    rw [List.foldl_append, ← hsegmenter]
    refine ⟨hnext, ?_⟩
    rw [(ingest_fixed _ _ _).1, calls_append_singleton, feed_append, ← hsegmenter]
    simp [CommandBlockSegmenter.serve]

theorem mem_snapshot {t : BlockTracker} (hring : Ring t waiting) (m : BlockMeta) :
    m ∈ t.snapshot ↔ t.lastReported.lookup m.index = some m := by
  simp only [snapshot, List.mem_filterMap, List.mem_mergeSort]
  constructor
  · grind [hring.keyed]
  · intro hm
    refine ⟨m.index, ?_, hm⟩
    exact AList.mem_keys.mp (AList.lookup_isSome.mp (Option.isSome_iff_exists.mpr ⟨m, hm⟩))

/-- What the reports of a tap rebuild, and what it retains. -/
theorem reports_rebuild (autoProgressPrefixes : List String) (outputCap maxBlocks maxTotalOutputBytes : Nat)
    (chunks : List (Int64 × List UInt8)) :
    let new := new autoProgressPrefixes outputCap maxBlocks maxTotalOutputBytes
    let t := (new.read chunks).1
    let told := (new.read chunks).2.foldl tell ∅
    let blocks := closedBlocks autoProgressPrefixes outputCap chunks
    (∀ k, k ∈ t.snapshot.map (·.index) ↔ k ∈ t.held.map (·.index) ∨ k ∈ t.running) ∧
      t.totalOutputBytes = (t.held.map (·.output.length)).sum ∧
      t.held.length ≤ new.maxBlocks ∧ (t.totalOutputBytes ≤ new.maxTotalOutputBytes ∨ t.held.length = 1) ∧
      (blocks.length + t.running.toList.length ≤ 4294967296 →
        (∀ m ∈ t.snapshot, ∃ heard, told.lookup m.index = some heard ∧
          (heard = m ∨ (t.running = some m.index ∧ SameButLength heard m))) ∧
        ∀ limit, ∀ record ∈ t.recent limit, ∃ block ∈ blocks, record = block.control) := by
  intro new t told blocks
  obtain ⟨⟨⟨handed, halive⟩, htap⟩, -⟩ :=
    follows_read autoProgressPrefixes outputCap maxBlocks maxTotalOutputBytes chunks
  have hfixed : t.maxBlocks = new.maxBlocks ∧ t.maxTotalOutputBytes = new.maxTotalOutputBytes :=
    feed_invariant (fun u => u.maxBlocks = new.maxBlocks ∧ u.maxTotalOutputBytes = new.maxTotalOutputBytes)
      (fun u c ⟨hb, ho⟩ => ⟨(ingest_fixed u c.2 c.1).2.1.trans hb, (ingest_fixed u c.2 c.1).2.2.trans ho⟩)
      ⟨rfl, rfl⟩ chunks
  change Tap t t.segmenter.nextIndex blocks told t.running at htap
  change CommandBlockSegmenter.Alive t.segmenter blocks handed at halive
  have hcount : t.segmenter.nextIndex = blocks.length := by
    simpa using (congrArg List.length halive.lifecycle.indices).symm
  obtain ⟨hroom, hring, ⟨hwithin, hceiling⟩, hnext, holder, hfaithful⟩ := htap
  refine ⟨fun k => ?_, hring.total, hfixed.1 ▸ hwithin, hfixed.2 ▸ hceiling, fun hfits => ?_⟩
  · have hmem : k ∈ t.snapshot.map (·.index) ↔ (t.lastReported.lookup k).isSome := by
      rw [List.mem_map, Option.isSome_iff_exists]
      constructor
      · rintro ⟨m, hm, rfl⟩
        exact ⟨m, (mem_snapshot hring m).mp hm⟩
      · rintro ⟨m, hm⟩
        have hkey := hring.keyed k m hm
        exact ⟨m, (mem_snapshot hring m).mpr (hkey ▸ hm), hkey⟩
    rw [hmem, hring.known]
    rfl
  · obtain ⟨hown, htold, -⟩ := hfaithful (hcount ▸ hfits)
    refine ⟨fun m hm => htold m.index m ((mem_snapshot hring m).mp hm), fun limit record hrecord => ?_⟩
    unfold recent at hrecord
    split at hrecord
    · contradiction
    · obtain ⟨kept, hkept, rfl⟩ := List.mem_map.mp hrecord
      obtain ⟨block, hblock, hkey, hout, hlast⟩ := hown kept (List.mem_of_mem_drop hkept)
      exact ⟨block, hblock, by simp [hlast, CommandBlock.control, CommandBlock.blockMeta, hkey, hout]⟩

/-! ## §5 Indices that do not fit -/

/-- `ESC ] 133 ; D ; 7 BEL`. -/
def finishedBytes : List UInt8 :=
  [Sanitize.esc, rightBracket, 0x31, 0x33, 0x33, semicolon, 0x44, semicolon, 0x37, Sanitize.bel]

/-- A command without output that exits with 7. -/
def cycleBytes : List UInt8 := CommandBlockSegmenter.outputStartBytes ++ finishedBytes

/-- The segmenter behind so many commands. -/
def quiet (n : Nat) (finished : List (List UInt8)) : CommandBlockSegmenter :=
  { CommandBlockSegmenter.new 0 [] with nextIndex := n, finished }

/-- The segmenter in the next one. -/
def started (n : Nat) (finished : List (List UInt8)) : CommandBlockSegmenter :=
  { quiet n finished with hasOpenBlock := true, runningSinceMs := some 0, phase := .output }

theorem ingest_outputStart (n : Nat) (finished : List (List UInt8)) :
    (quiet n finished).ingest 0 CommandBlockSegmenter.outputStartBytes =
      (started n (finished ++ [[0x31, 0x33, 0x33, 0x3B, 0x43]]), []) := by
  have hmark : markOf [0x31, 0x33, 0x33, 0x3B, 0x43] = some .outputStart := by decide +kernel
  have hosc := CommandBlockSegmenter.feed_osc 0 (s := quiet n finished) rfl (by decide : Sanitize.esc ∉ [0x31, 0x33, 0x33, 0x3B, 0x43])
    (by decide) (by decide)
  rw [CommandBlockSegmenter.finishOsc_eq] at hosc
  rw [CommandBlockSegmenter.ingest_eq_feed]
  refine Eq.trans hosc ?_
  have hbuffer : ((quiet n finished).inOsc [0x31, 0x33, 0x33, 0x3B, 0x43]).oscBuffer = [0x31, 0x33, 0x33, 0x3B, 0x43] := rfl
  rw [hbuffer, hmark]
  simp [CommandBlockSegmenter.onMark, CommandBlockSegmenter.onOutputStart, CommandBlockSegmenter.taken,
    CommandBlockSegmenter.inOsc, CommandBlockSegmenter.startOpenBlock, autoProgressMatches, quiet, started,
    CommandBlockSegmenter.new]

theorem ingest_finished (n : Nat) (finished : List (List UInt8)) :
    (started n finished).ingest 0 finishedBytes =
      (quiet (n + 1) (finished ++ [[0x31, 0x33, 0x33, 0x3B, 0x44, 0x3B, 0x37]]),
        [⟨n, "", [], some 7, some 0, true, false, 0⟩]) := by
  have hmark : markOf [0x31, 0x33, 0x33, 0x3B, 0x44, 0x3B, 0x37] = some (.commandFinished ["133", "D", "7"]) := by
    decide +kernel
  have hexit : parseExit ["133", "D", "7"] = some 7 := by decide +kernel
  have hduration : durationMs 0 0 = 0 := by decide +kernel
  have htext : decodeCommand [] = "" := by decide +kernel
  have hosc := CommandBlockSegmenter.feed_osc 0 (s := started n finished) rfl
    (by decide : Sanitize.esc ∉ [0x31, 0x33, 0x33, 0x3B, 0x44, 0x3B, 0x37]) (by decide) (by decide)
  rw [CommandBlockSegmenter.finishOsc_eq] at hosc
  rw [CommandBlockSegmenter.ingest_eq_feed]
  refine Eq.trans hosc ?_
  have hbuffer : ((started n finished).inOsc [0x31, 0x33, 0x33, 0x3B, 0x44, 0x3B, 0x37]).oscBuffer =
    [0x31, 0x33, 0x33, 0x3B, 0x44, 0x3B, 0x37] := rfl
  rw [hbuffer, hmark]
  simp [CommandBlockSegmenter.onMark, CommandBlockSegmenter.onCommandFinished, CommandBlockSegmenter.taken,
    CommandBlockSegmenter.inOsc, CommandBlockSegmenter.takeOpenBlock, CommandBlockSegmenter.currentCommandBytes, quiet,
    started, CommandBlockSegmenter.new, hexit, hduration, htext]

theorem ingest_cycle (n : Nat) (finished : List (List UInt8)) :
    ∃ finished', (quiet n finished).ingest 0 cycleBytes =
      (quiet (n + 1) finished', [⟨n, "", [], some 7, some 0, true, false, 0⟩]) := by
  rw [cycleBytes, CommandBlockSegmenter.ingest_append, ingest_outputStart, ingest_finished]
  exact ⟨_, rfl⟩

/-- A tap with room for all of so many commands, behind them. -/
def behind (n : Nat) (finished : List (List UInt8)) (lastReported : HashMap UInt32 BlockMeta) : BlockTracker :=
  { new [] 0 4294967297 0 with
    segmenter := quiet n finished
    held := (List.range n).map fun i => ⟨u32OrMax i, []⟩
    lastReported }

theorem close_fresh {t : BlockTracker} {b : CommandBlock}
    (hfind : t.held.find? (·.index = u32OrMax b.index) = none) (hcount : t.held.length < t.maxBlocks)
    (hbytes : t.totalOutputBytes + b.output.length ≤ t.maxTotalOutputBytes) :
    (t.close b).1 = { t with
      totalOutputBytes := t.totalOutputBytes + b.output.length
      held := t.held ++ [⟨u32OrMax b.index, b.output⟩]
      lastReported := t.lastReported.insert (u32OrMax b.index) b.blockMeta } := by
  have hbounds (u : BlockTracker) (hcount : u.held.length ≤ u.maxBlocks)
      (hbytes : u.totalOutputBytes ≤ u.maxTotalOutputBytes) : u.evictToBounds = u := by
    rw [evictToBounds, evictToCount, dif_neg (by omega), evictToBytes, dif_neg (by omega)]
  have hheld : (t.reportIfChanged b).1.held = t.held := rfl
  simp only [close, store, hheld, hfind]
  exact hbounds _ (by simp; exact hcount) hbytes

theorem ingest_behind {n : Nat} (hfits : n < 4294967296) (finished : List (List UInt8))
    (lastReported : HashMap UInt32 BlockMeta) :
    ∃ finished' lastReported', ((behind n finished lastReported).ingest cycleBytes 0).1 =
      behind (n + 1) finished' lastReported' := by
  obtain ⟨finished', hcycle⟩ := ingest_cycle n finished
  have hfind : ((List.range n).map fun i => (⟨u32OrMax i, []⟩ : Held)).find? (·.index = u32OrMax n) = none := by
    rw [List.find?_eq_none]
    intro kept hkept
    obtain ⟨i, hi, rfl⟩ := List.mem_map.mp hkept
    have hlt := List.mem_range.mp hi
    simp only [decide_eq_true_eq]
    intro heq
    have hsame := congrArg UInt32.toNat heq
    rw [toNat_u32OrMax (by omega), toNat_u32OrMax hfits] at hsame
    omega
  have hsegmenter : (behind n finished lastReported).segmenter.ingest 0 cycleBytes =
      (quiet (n + 1) finished', [⟨n, "", [], some 7, some 0, true, false, 0⟩]) := hcycle
  unfold BlockTracker.ingest
  rw [hsegmenter]
  dsimp only
  rw [feed_singleton]
  have hclose := close_fresh (t := { behind n finished lastReported with segmenter := quiet (n + 1) finished' })
    (b := ⟨n, "", [], some 7, some 0, true, false, 0⟩) hfind (by simp [behind, new]; omega) (by simp [behind, new])
  refine ⟨finished', AList.insert (u32OrMax n) (CommandBlock.blockMeta ⟨n, "", [], some 7, some 0, true, false, 0⟩)
    lastReported, ?_⟩
  have hidle : (quiet (n + 1) finished').peekOpenBlock = none := rfl
  have hdrained : (quiet (n + 1) finished').drainAutoProgress.1 = quiet (n + 1) finished' := rfl
  rw [hdrained, hclose]
  simp only [reportOpen, hidle]
  simp [behind, new, List.range_succ]

theorem read_cycles {n : Nat} (hfits : n ≤ 4294967296) :
    (∃ finished lastReported, ((new [] 0 4294967297 0).read (List.replicate n (0, cycleBytes))).1 =
      behind n finished lastReported) ∧
      ∀ block ∈ closedBlocks [] 0 (List.replicate n (0, cycleBytes)), block.complete = true ∧ block.exitCode = some 7 := by
  induction n with
  | zero => exact ⟨⟨[], ∅, rfl⟩, by simp [closedBlocks, calls]⟩
  | succ n ih =>
    obtain ⟨⟨finished, lastReported, hread⟩, hblocks⟩ := ih (by omega)
    obtain ⟨finished', lastReported', hnext⟩ := ingest_behind (n := n) (by omega) finished lastReported
    obtain ⟨finished'', hcycle⟩ := ingest_cycle n finished
    obtain ⟨-, hsegmenter⟩ := follows_read [] 0 4294967297 0 (List.replicate n (0, cycleBytes))
    rw [hread] at hsegmenter
    rw [List.replicate_succ', read_append_singleton, closedBlocks_append_singleton, hread, ← hsegmenter]
    refine ⟨⟨finished', lastReported', hnext⟩, fun block hblock => ?_⟩
    rcases List.mem_append.mp hblock with hblock | hblock
    · exact hblocks block hblock
    · have hsame : (behind n finished lastReported).segmenter.ingest 0 cycleBytes = _ := hcycle
      rw [hsame, List.mem_singleton] at hblock
      rw [hblock]
      exact ⟨rfl, rfl⟩

theorem ingest_started (n : Nat) (finished : List (List UInt8)) (lastReported : HashMap UInt32 BlockMeta) :
    ((behind n finished lastReported).ingest CommandBlockSegmenter.outputStartBytes 0).1.held =
        (List.range n).map (fun i => ⟨u32OrMax i, []⟩) ∧
      ((behind n finished lastReported).ingest CommandBlockSegmenter.outputStartBytes 0).1.lastReported.lookup
        (u32OrMax n) = some ⟨u32OrMax n, none, none, false, 0, "", 0⟩ := by
  have htext : decodeCommand [] = "" := by decide +kernel
  have hstart : (behind n finished lastReported).segmenter.ingest 0 CommandBlockSegmenter.outputStartBytes = _ :=
    ingest_outputStart n finished
  have hpeek (finished : List (List UInt8)) : (started n finished).drainAutoProgress.1.peekOpenBlock =
      some ⟨n, "", [], none, none, false, false, 0⟩ := by
    simp [CommandBlockSegmenter.peekOpenBlock, CommandBlockSegmenter.drainAutoProgress, started, quiet,
      CommandBlockSegmenter.new, CommandBlockSegmenter.currentCommandBytes, htext]
  unfold BlockTracker.ingest
  rw [hstart]
  simp only [feed_nil, reportOpen, hpeek]
  exact ⟨rfl, AList.lookup_insert _⟩

/-- The stream of 2^32 commands, and one that is running. -/
def unfittingChunks : List (Int64 × List UInt8) :=
  List.replicate 4294967296 (0, cycleBytes) ++ [(0, CommandBlockSegmenter.outputStartBytes)]

/-- Behind it the record of the last retained block says that it never
finished, and every block did. -/
theorem recent_misnamed :
    ((new [] 0 4294967297 0).read unfittingChunks).1.recent 1 = [⟨4294967295, "", none, none, false, []⟩] ∧
      ∀ block ∈ closedBlocks [] 0 unfittingChunks, block.complete = true ∧ block.exitCode = some 7 := by
  obtain ⟨⟨finished, lastReported, hread⟩, hblocks⟩ := read_cycles (n := 4294967296) (Nat.le_refl _)
  obtain ⟨-, hsegmenter⟩ := follows_read [] 0 4294967297 0 (List.replicate 4294967296 (0, cycleBytes))
  rw [hread] at hsegmenter
  have hstart : (behind 4294967296 finished lastReported).segmenter.ingest 0 CommandBlockSegmenter.outputStartBytes = _ :=
    ingest_outputStart 4294967296 finished
  rw [unfittingChunks, read_append_singleton, closedBlocks_append_singleton, hread, ← hsegmenter, hstart, List.append_nil]
  refine ⟨?_, hblocks⟩
  have hkey : u32OrMax 4294967296 = 4294967295 := by decide
  obtain ⟨hheld, hlast⟩ := ingest_started 4294967296 finished lastReported
  have hrange : List.range 4294967296 = List.range 4294967295 ++ [4294967295] := List.range_succ
  have hlastKey : u32OrMax 4294967295 = 4294967295 := by decide
  rw [hkey] at hlast
  rw [hrange, List.map_append] at hheld
  rw [recent, if_neg (by decide), hheld]
  simp [hlast, hlastKey]

/-- One command, retained. -/
theorem reports_rebuild_cycle :
    ∀ limit, ∀ record ∈ ((new [] 0 0 0).read [(0, cycleBytes)]).1.recent limit,
      ∃ block ∈ closedBlocks [] 0 [(0, cycleBytes)], record = block.control := by
  have hclosed := closedBlocks_append_singleton [] 0 [] 0 cycleBytes
  obtain ⟨finished, hcycle⟩ := ingest_cycle 0 []
  have hsame : (feed CommandBlockSegmenter.serve (.new 0 []) (calls [])).1.ingest 0 cycleBytes = _ := hcycle
  have hlength := congrArg List.length (hsame ▸ hclosed)
  rw [List.length_append] at hlength
  change (closedBlocks [] 0 [(0, cycleBytes)]).length = 0 + 1 at hlength
  obtain ⟨-, -, -, -, hnamed⟩ := reports_rebuild [] 0 0 0 [(0, cycleBytes)]
  refine (hnamed ?_).2
  have hone : ((new [] 0 0 0).read [(0, cycleBytes)]).1.running.toList.length ≤ 1 := Option.length_toList_le
  omega

end BlockTracker

end SlopDesk.Superd
