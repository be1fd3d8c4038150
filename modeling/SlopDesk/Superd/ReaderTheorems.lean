/-
SlopDesk.Superd.ReaderTheorems — the two stream readers, however the bytes
are cut.

§1 and §2: the bulk scans of the segmenter and of the sniffer do what their
step does byte by byte. §3: what the caller drains after every chunk adds
up. §4: the two escape parsers stay in step and finish the same payloads.
§5: nothing comes out of a string body.
-/
import SlopDesk.Superd.Sniffer

namespace SlopDesk.Superd

open SlopDesk.Base SlopDesk.Sanitize

variable {o : OutputSniffer} {s : CommandBlockSegmenter}
variable (foreign : Foreign)

theorem findIdx?_cut (b : UInt8) (bytes : List UInt8) : (bytes.findIdx? (· == b) = none ∧ b ∉ bytes) ∨
      ∃ pre post, bytes = pre ++ b :: post ∧ b ∉ pre ∧ bytes.findIdx? (· == b) = some pre.length := by
  induction bytes with
  | nil => exact .inl ⟨rfl, List.not_mem_nil⟩
  | cons a bytes ih =>
    by_cases ha : a = b
    · subst ha
      exact .inr ⟨[], bytes, rfl, List.not_mem_nil, by simp [List.findIdx?_cons]⟩
    · grind

theorem take_cut (pre : List UInt8) (b : UInt8) (post : List UInt8) :
    (pre ++ b :: post).take (pre.length + 1) = pre ++ [b] := by
  rw [List.append_cons]
  exact List.take_left' (by simp)

/-! ## §1 The segmenter -/

namespace CommandBlockSegmenter

variable (nowMs : Int64)

section

variable (s : CommandBlockSegmenter)

@[simp] theorem appendByte_state (byte : UInt8) :
    (s.appendByte byte).state = s.state := by
  unfold appendByte
  split <;> try split
  all_goals rfl

theorem appendRun_cons (byte : UInt8) (run : List UInt8) :
    s.appendRun (byte :: run) = (s.appendByte byte).appendRun run := by
  cases hphase : s.phase with
  | idle => simp [appendRun, appendByte, hphase]
  | command =>
    by_cases hroom : s.openCommandBytes.length < cmdOscCap
    · have htake : cmdOscCap - s.openCommandBytes.length = cmdOscCap - (s.openCommandBytes.length + 1) + 1 := by
        omega
      simp [appendRun, appendByte, hphase, hroom, htake]
    · have hnone : cmdOscCap - s.openCommandBytes.length = 0 := by omega
      simp [appendRun, appendByte, hphase, hroom, hnone]
  | output =>
    by_cases hroom : s.openOutputBytes.length < s.outputCap
    · have htake : s.outputCap - s.openOutputBytes.length =
          s.outputCap - (s.openOutputBytes.length + 1) + 1 := by omega
      simp [appendRun, appendByte, hphase, hroom, htake]
    · have hnone : s.outputCap - s.openOutputBytes.length = 0 := by omega
      simp [appendRun, appendByte, hphase, hroom, hnone]

theorem appendRun_nil : s.appendRun [] = s := by
  unfold appendRun
  split <;> simp

theorem feed_run (h : s.state = .ground) {run : List UInt8} (hrun : esc ∉ run) :
    feed (step nowMs) s run = (s.appendRun run, []) := by
  induction run generalizing s with
  | nil => rw [appendRun_nil, feed_nil]
  | cons byte run ih =>
    rw [List.mem_cons, not_or] at hrun
    have hstep : s.step nowMs byte = (s.appendByte byte, []) := by
      simp [step, h, Ne.symm hrun.1]
    rw [feed_cons, hstep, ih _ (by simpa using h) hrun.2, appendRun_cons]
    rfl

theorem ingest_eq_feed (bytes : List UInt8) :
    s.ingest nowMs bytes = feed (step nowMs) s bytes := by
  induction hlen : bytes.length using Nat.strong_induction_on generalizing s bytes with
  | _ n ih =>
    cases bytes with
    | nil => simp [ingest]
    | cons byte tail =>
      rw [ingest]
      by_cases hground : s.state = .ground
      · rw [if_pos hground]
        rcases findIdx?_cut esc (byte :: tail) with ⟨hnone, hout⟩ | ⟨pre, post, hcut, hout, hsome⟩
        · have hrun := feed_run nowMs s hground hout
          simp only [hnone, Option.getD_none, List.take_length, Nat.lt_irrefl, if_false, hrun]
          rfl
        · have hrun := feed_run nowMs s hground hout
          have hlength : pre.length < (pre ++ esc :: post).length := by simp
          have hdrop : (pre ++ esc :: post).drop (pre.length + 1) = post := by simp
          have happend : (if pre = [] then s else s.appendRun pre) = s.appendRun pre := by
            by_cases hnil : pre = []
            · rw [if_pos hnil, hnil, appendRun_nil]
            · rw [if_neg hnil]
          have hpost : post.length < n := by
            grind
          rw [hcut] at hsome
          simp only [hcut, hsome, Option.getD_some, List.take_left, if_pos hlength, hdrop, happend]
          rw [ih _ hpost _ post rfl, feed_append, hrun, feed_cons]
          rfl
      · rw [if_neg hground]
        have htail : tail.length < n := by rw [← hlen]; exact Nat.lt_succ_self _
        dsimp only
        rw [ih _ htail _ tail rfl, feed_cons]

end

end CommandBlockSegmenter

/-! ## §2 The sniffer -/

namespace OutputSniffer

variable (foreign : Foreign) (nowMs : Int64)
variable {byte : UInt8}

theorem step_ground {s : OutputSniffer} (h : s.state = .ground) (hesc : byte ≠ esc) :
    s.step foreign nowMs byte = (s, if byte = bel then [.bell] else []) := by
  by_cases hbel : byte = bel
  · subst hbel
    simp [step, h, hesc]
  · simp [step, h, hesc, hbel]

theorem step_swallowing {s : OutputSniffer} (h : s.state = .oscDiscard ∨ s.state = .stringConsume)
    (hesc : byte ≠ esc) (hbel : byte ≠ bel) : s.step foreign nowMs byte = (s, []) := by
  rcases h with h | h
  · simp [step, h, hesc, hbel]
  · simp [step, h, hesc, hbel]

theorem skimBells_eq_feed (s : OutputSniffer) (h : s.state = .ground) {run : List UInt8} (hrun : esc ∉ run) :
    s.skimBells foreign nowMs run = feed (step foreign nowMs) s run := by
  induction hlen : run.length using Nat.strong_induction_on generalizing run with
  | _ n ih =>
    have hquiet {pre : List UInt8} (hesc : esc ∉ pre) (hbel : bel ∉ pre) :
        feed (step foreign nowMs) s pre = (s, []) := by
      refine feed_quiet fun byte hbyte => ?_
      have hne : byte ≠ esc := fun heq => hesc (heq ▸ hbyte)
      have hbell : byte ≠ bel := fun heq => hbel (heq ▸ hbyte)
      rw [step_ground foreign nowMs h hne, if_neg hbell]
    rw [skimBells]
    rcases findIdx?_cut bel run with ⟨hnone, hout⟩ | ⟨pre, post, rfl, hout, hsome⟩
    · grind
    · rw [List.mem_append, not_or, List.mem_cons, not_or] at hrun
      split
      · grind
      · rename_i belAt hfound
        obtain rfl := Option.some.inj (hsome.symm.trans hfound)
        have hbell := step_ground foreign nowMs h (Ne.symm hrun.2.1)
        have hdrop : (pre ++ bel :: post).drop (pre.length + 1) = post := by simp
        have hpost : post.length < n := by
          grind
        rw [hdrop, hbell]
        dsimp only
        rw [ih _ hpost hrun.2.2 rfl, feed_append, hquiet hrun.1 hout, feed_cons, hbell]
        rfl

theorem skimGround_eq_feed (s : OutputSniffer) (h : s.state = .ground) (rest : List UInt8) :
    (s.skimGround foreign nowMs rest).2 =
      feed (step foreign nowMs) s (rest.take (s.skimGround foreign nowMs rest).1) := by
  rcases findIdx?_cut esc rest with ⟨hnone, hout⟩ | ⟨pre, post, rfl, hout, hsome⟩
  · have hbells := skimBells_eq_feed foreign nowMs s h hout
    simp only [skimGround, hnone, Option.getD_none, List.take_length, Nat.lt_irrefl, if_false, hbells]
  · have hbells := skimBells_eq_feed foreign nowMs s h hout
    have hlength : pre.length < (pre ++ esc :: post).length := by simp
    simp only [skimGround, hsome, Option.getD_some, List.take_left, if_pos hlength, hbells]
    rw [take_cut, feed_append, feed_singleton]

theorem skimSwallowing_eq_feed (s : OutputSniffer) (h : s.state = .oscDiscard ∨ s.state = .stringConsume)
    (rest : List UInt8) : (s.skimSwallowing foreign nowMs rest).2 =
      feed (step foreign nowMs) s (rest.take (s.skimSwallowing foreign nowMs rest).1) := by
  have hquiet {pre : List UInt8} (hesc : esc ∉ pre) (hbel : bel ∉ pre) :
      feed (step foreign nowMs) s pre = (s, []) :=
    feed_quiet fun byte hbyte => step_swallowing foreign nowMs h (fun heq => hesc (heq ▸ hbyte))
      fun heq => hbel (heq ▸ hbyte)
  have hbell {pre : List UInt8} (hesc : esc ∉ pre) (hbel : bel ∉ pre) (byte : UInt8) :
      feed (step foreign nowMs) s (pre ++ [byte]) = s.step foreign nowMs byte := by
    rw [feed_append, hquiet hesc hbel, feed_singleton]
    rfl
  rcases findIdx?_cut esc rest with ⟨hnone, hout⟩ | ⟨pre, post, rfl, hout, hsome⟩
  · rcases findIdx?_cut bel rest with ⟨hnobel, hsilent⟩ | ⟨run, after, rfl, hsilent, hbelAt⟩
    · simp only [skimSwallowing, hnone, hnobel, Option.getD_none, List.take_length, Nat.lt_irrefl, if_false,
        hquiet hout hsilent]
    · rw [List.mem_append, not_or] at hout
      simp only [skimSwallowing, hnone, hbelAt, Option.getD_none, List.take_length, take_cut,
        hbell hout.1 hsilent]
  · have hlength : pre.length < (pre ++ esc :: post).length := by simp
    rcases findIdx?_cut bel pre with ⟨hnobel, hsilent⟩ | ⟨run, after, rfl, hsilent, hbelAt⟩
    · simp only [skimSwallowing, hsome, hnobel, Option.getD_some, List.take_left, if_pos hlength, take_cut,
        hbell hout hsilent]
    · have htake : (run ++ bel :: after ++ esc :: post).take (run.length + 1) = run ++ [bel] := by
        rw [List.append_assoc, List.cons_append, take_cut]
      rw [List.mem_append, not_or] at hout
      simp only [skimSwallowing, hsome, hbelAt, Option.getD_some, List.take_left, htake, hbell hout.1 hsilent]

theorem observe_eq_feed (s : OutputSniffer) (bytes : List UInt8) :
    s.observe foreign nowMs bytes = feed (step foreign nowMs) s bytes := by
  induction hlen : bytes.length using Nat.strong_induction_on generalizing s bytes with
  | _ n ih =>
    cases bytes with
    | nil => simp [observe]
    | cons byte tail =>
      -- what a scan leaves is shorter
      have hscan (read : Nat × OutputSniffer × List SniffEvent) (hpos : 0 < read.1)
          (hread : read.2 = feed (step foreign nowMs) s ((byte :: tail).take read.1)) :
          ((read.2.1.observe foreign nowMs ((byte :: tail).drop read.1)).1,
            read.2.2 ++ (read.2.1.observe foreign nowMs ((byte :: tail).drop read.1)).2) =
            feed (step foreign nowMs) s (byte :: tail) := by
        have hshort : ((byte :: tail).drop read.1).length < n := by
          grind
        rw [ih _ hshort _ _ rfl, hread, ← feed_append, List.take_append_drop]
      have hstep : ((observe foreign nowMs (s.step foreign nowMs byte).1 tail).1,
          (s.step foreign nowMs byte).2 ++ (observe foreign nowMs (s.step foreign nowMs byte).1 tail).2) =
          feed (step foreign nowMs) s (byte :: tail) := by
        have htail : tail.length < n := by rw [← hlen]; exact Nat.lt_succ_self _
        rw [ih _ htail _ tail rfl, feed_cons]
      rw [observe]
      split
      · rename_i hground
        exact hscan _ (skimGround_pos foreign nowMs s byte tail) (skimGround_eq_feed foreign nowMs s hground _)
      · rename_i hdiscard
        exact hscan _ (skimSwallowing_pos foreign nowMs s byte tail)
          (skimSwallowing_eq_feed foreign nowMs s (.inl hdiscard) _)
      · rename_i hstring
        exact hscan _ (skimSwallowing_pos foreign nowMs s byte tail)
          (skimSwallowing_eq_feed foreign nowMs s (.inr hstring) _)
      · exact hstep

end OutputSniffer

/-! ## §3 What is drained -/

namespace CommandBlockSegmenter

variable (nowMs : Int64)

/-- The segmenter with something pending ahead of what it has. -/
def pend (p : List SyntheticProgress) (s : CommandBlockSegmenter) : CommandBlockSegmenter :=
  { s with pendingProgress := p ++ s.pendingProgress }

variable (p : List SyntheticProgress) (s : CommandBlockSegmenter)
variable (fields : List String)

theorem appendByte_pend (byte : UInt8) : (s.pend p).appendByte byte = (s.appendByte byte).pend p := by
  unfold appendByte pend
  dsimp only
  split <;> try split
  all_goals rfl

theorem takeOpenBlock_pend (complete : Bool) (exitCode : Option Int32) (durationMs : Option UInt32) :
    (s.pend p).takeOpenBlock complete exitCode durationMs =
      ((s.takeOpenBlock complete exitCode durationMs).1.pend p,
        (s.takeOpenBlock complete exitCode durationMs).2) := by
  unfold takeOpenBlock pend
  split
  · split
    · simp only [List.append_assoc]
      rfl
    · rfl
  · rfl

theorem closeOrDiscardOpen_pend : (s.pend p).closeOrDiscardOpen nowMs =
    ((s.closeOrDiscardOpen nowMs).1.pend p, (s.closeOrDiscardOpen nowMs).2) := by
  have htake := takeOpenBlock_pend p s false none (s.runningSinceMs.map (Superd.durationMs · nowMs))
  unfold closeOrDiscardOpen
  by_cases hopen : s.hasOpenBlock
  · by_cases hphase : s.phase = .output
    · rw [if_pos hopen, if_pos hphase, if_pos (show (s.pend p).hasOpenBlock from hopen),
        if_pos (show (s.pend p).phase = .output from hphase)]
      exact htake
    · rw [if_pos hopen, if_neg hphase, if_pos (show (s.pend p).hasOpenBlock from hopen),
        if_neg (show (s.pend p).phase ≠ .output from hphase)]
      rfl
  · rw [if_neg hopen, if_neg (show ¬ (s.pend p).hasOpenBlock from hopen)]

theorem onPromptStart_pend : (s.pend p).onPromptStart fields nowMs =
    ((s.onPromptStart fields nowMs).1.pend p, (s.onPromptStart fields nowMs).2) := by
  simp only [onPromptStart, closeOrDiscardOpen_pend]
  split <;> rfl

theorem onCommandStart_pend : (s.pend p).onCommandStart nowMs =
    ((s.onCommandStart nowMs).1.pend p, (s.onCommandStart nowMs).2) := by
  simp only [onCommandStart, closeOrDiscardOpen_pend]
  by_cases hopen : (s.hasOpenBlock && s.phase = .command) = true
  · rw [if_pos hopen, if_pos (show ((s.pend p).hasOpenBlock && (s.pend p).phase = .command) = true from hopen)]
    rfl
  · rw [if_neg hopen, if_neg (show ¬ ((s.pend p).hasOpenBlock && (s.pend p).phase = .command) = true from hopen)]
    rfl

theorem onExplicitCommand_pend :
    (s.pend p).onExplicitCommand fields = (s.onExplicitCommand fields).pend p := by
  by_cases hopen : s.hasOpenBlock
  · simp [onExplicitCommand, pend, hopen]
  · simp [onExplicitCommand, pend, startOpenBlock, hopen]

theorem onOutputStart_pend : (s.pend p).onOutputStart nowMs = (s.onOutputStart nowMs).pend p := by
  by_cases hopen : s.hasOpenBlock
  · simp only [onOutputStart, pend, hopen, if_true, currentCommandBytes]
    split
    · simp only [List.append_assoc]
    · rfl
  · simp only [onOutputStart, pend, hopen, startOpenBlock, currentCommandBytes]
    simp only [Bool.false_eq_true, if_false]
    split
    · simp only [List.append_assoc]
    · rfl

theorem onCommandFinished_pend : (s.pend p).onCommandFinished fields nowMs =
    ((s.onCommandFinished fields nowMs).1.pend p, (s.onCommandFinished fields nowMs).2) := by
  unfold onCommandFinished
  by_cases hopen : (s.hasOpenBlock && s.phase = .output) = true
  · rw [if_pos hopen, if_pos (show ((s.pend p).hasOpenBlock && (s.pend p).phase = .output) = true from hopen)]
    have htake := takeOpenBlock_pend p { s with runningSinceMs := none } true (parseExit fields)
      (s.runningSinceMs.map (Superd.durationMs · nowMs))
    simp only [pend] at htake ⊢
    rw [htake]
  · rw [if_neg hopen, if_neg (show ¬ ((s.pend p).hasOpenBlock && (s.pend p).phase = .output) = true from hopen)]
    by_cases hblock : s.hasOpenBlock
    · simp [pend, discardOpenBlock, hblock]
    · simp [pend, hblock]

theorem onCommandMark_pend (buffer : List UInt8) : (s.pend p).onCommandMark buffer nowMs =
    ((s.onCommandMark buffer nowMs).1.pend p, (s.onCommandMark buffer nowMs).2) := by
  unfold onCommandMark
  split
  · rfl
  · dsimp only
    split
    · rfl
    · split
      · rfl
      · split
        · exact onPromptStart_pend nowMs p s _
        · exact onCommandStart_pend nowMs p s
        · rw [onExplicitCommand_pend]
        · rw [onOutputStart_pend]
        · exact onCommandFinished_pend nowMs p s _
        · rfl

theorem finishOsc_pend : (s.pend p).finishOsc nowMs =
    ((s.finishOsc nowMs).1.pend p, (s.finishOsc nowMs).2) := by
  have hmark := onCommandMark_pend nowMs p { s with oscBuffer := [], finished := s.finished ++ [s.oscBuffer] }
    s.oscBuffer
  unfold finishOsc
  dsimp only [pend] at hmark ⊢
  split
  · rfl
  · grind

theorem classify_pend (byte : UInt8) : (s.pend p).classify byte = (s.classify byte).pend p := by
  have happend := appendByte_pend p s esc
  have happend' := appendByte_pend p (s.appendByte esc) byte
  unfold classify
  by_cases hphase : s.phase = .output
  · have hphase' : (s.pend p).phase = .output := hphase
    simp only [hphase, hphase', if_true, happend, happend']
    repeat' split
    all_goals rfl
  · have hphase' : ¬ (s.pend p).phase = .output := hphase
    repeat' split
    all_goals rfl

theorem step_pend (byte : UInt8) : (s.pend p).step nowMs byte =
    ((s.step nowMs byte).1.pend p, (s.step nowMs byte).2) := by
  have hstate' : (s.pend p).state = s.state := rfl
  have hphase' : (s.pend p).phase = s.phase := rfl
  have hbuffer' : (s.pend p).oscBuffer = s.oscBuffer := rfl
  have hfinish := finishOsc_pend nowMs p s
  cases hstate : s.state with
  | ground =>
    simp only [step, hstate', hstate, appendByte_pend]
    split <;> rfl
  | escape => simp only [step, hstate', hstate, classify_pend]
  | csi =>
    simp only [step, hstate', hphase', hstate, appendByte_pend]
    repeat' split
    all_goals rfl
  | osc =>
    simp only [step, hstate', hbuffer', hstate, hfinish]
    repeat' split
    all_goals rfl
  | oscEscape =>
    have hclassify := classify_pend p { (s.finishOsc nowMs).1 with state := .escape } byte
    simp only [step, hstate', hstate, hfinish]
    split
    · rfl
    · rw [← hclassify]
      rfl
  | oscDiscard =>
    simp only [step, hstate', hstate]
    repeat' split
    all_goals rfl
  | oscDiscardEscape =>
    have hclassify := classify_pend p { s with state := .escape } byte
    simp only [step, hstate', hstate]
    split
    · rfl
    · rw [← hclassify]
      rfl
  | stringConsume =>
    simp only [step, hstate', hstate]
    repeat' split
    all_goals rfl
  | stringConsumeEscape =>
    simp only [step, hstate', hstate]
    repeat' split
    all_goals rfl

theorem ingest_pend (bytes : List UInt8) : (s.pend p).ingest nowMs bytes =
    ((s.ingest nowMs bytes).1.pend p, (s.ingest nowMs bytes).2) := by
  rw [ingest_eq_feed, ingest_eq_feed, feed_commutes (step_pend nowMs p)]

theorem ingest_append (bytes more : List UInt8) : s.ingest nowMs (bytes ++ more) =
    (((s.ingest nowMs bytes).1.ingest nowMs more).1,
      (s.ingest nowMs bytes).2 ++ ((s.ingest nowMs bytes).1.ingest nowMs more).2) := by
  simp only [ingest_eq_feed, feed_append]

/-- `ingest`, behind which the caller drains the progress. -/
def ingestDrained (s : CommandBlockSegmenter) (chunk : List UInt8) :
    CommandBlockSegmenter × List (CommandBlock ⊕ SyntheticProgress) :=
  let (s, completed) := s.ingest nowMs chunk
  let (s, progress) := s.drainAutoProgress
  (s, completed.map .inl ++ progress.map .inr)

/-- A caller that drains the progress after every chunk has the blocks of
one reading, and the progress it leaves pending. -/
theorem drained (chunks : List (List UInt8)) :
    let read := feedChunks (ingestDrained nowMs) s chunks
    (s.ingest nowMs chunks.flatten).1 = read.1.pend (read.2.filterMap Sum.getRight?) ∧
      (s.ingest nowMs chunks.flatten).2 = read.2.filterMap Sum.getLeft? := by
  induction chunks generalizing s with
  | nil => simp [feedChunks, ingest, pend]
  | cons chunk chunks ih =>
    have hdrain : (s.ingest nowMs chunk).1 =
        ((s.ingest nowMs chunk).1.drainAutoProgress.1).pend (s.ingest nowMs chunk).1.pendingProgress := by
      simp [drainAutoProgress, pend]
    obtain ⟨hstate, hblocks⟩ := ih (s.ingest nowMs chunk).1.drainAutoProgress.1
    have happend := ingest_append nowMs s chunk chunks.flatten
    rw [hdrain, ingest_pend] at happend
    rw [List.flatten_cons, happend, hstate, hblocks]
    simp only [feedChunks, ingestDrained, List.filterMap_append, List.filterMap_map]
    constructor
    · simp [pend, drainAutoProgress, Function.comp_def]
    · simp [Function.comp_def]

end CommandBlockSegmenter

/-! ## §4 In step -/

theorem OutputSniffer.finishOsc_record (nowMs : Int64) (s : OutputSniffer) :
    (s.finishOsc foreign nowMs).1.oscBuffer = [] ∧
      (s.finishOsc foreign nowMs).1.finished = s.finished ++ [s.oscBuffer] := by
  have htitle (s : OutputSniffer) (body : Option String) :
      (s.onTitle body).1.oscBuffer = s.oscBuffer ∧ (s.onTitle body).1.finished = s.finished := by
    grind [onTitle]
  have hmark (s : OutputSniffer) (buffer : List UInt8) :
      (s.onCommandMark nowMs buffer).1.oscBuffer = s.oscBuffer ∧
        (s.onCommandMark nowMs buffer).1.finished = s.finished := by
    unfold onCommandMark
    dsimp only
    repeat' split
    all_goals exact ⟨rfl, rfl⟩
  have hkitty (s : OutputSniffer) (buffer : List UInt8) (remainder : Option String) :
      (s.onKitty foreign buffer remainder).1.oscBuffer = s.oscBuffer ∧
        (s.onKitty foreign buffer remainder).1.finished = s.finished := by
    unfold onKitty
    dsimp only
    repeat' split
    all_goals exact ⟨rfl, rfl⟩
  unfold finishOsc
  dsimp only
  split
  · exact ⟨rfl, rfl⟩
  · split
    · exact ⟨rfl, rfl⟩
    · grind

namespace CommandBlockSegmenter

/-- What the escape parser keeps, which the marks do not touch. -/
def record (s : CommandBlockSegmenter) : List UInt8 × List (List UInt8) := (s.oscBuffer, s.finished)

@[simp] theorem record_appendByte (s : CommandBlockSegmenter) (byte : UInt8) :
    (s.appendByte byte).record = s.record := by
  unfold appendByte
  split <;> try split
  all_goals rfl

theorem record_takeOpenBlock (s : CommandBlockSegmenter) (complete : Bool) (exitCode : Option Int32)
    (durationMs : Option UInt32) : (s.takeOpenBlock complete exitCode durationMs).1.record = s.record := by
  unfold takeOpenBlock
  split <;> rfl

theorem record_closeOrDiscardOpen (nowMs : Int64) (s : CommandBlockSegmenter) :
    (s.closeOrDiscardOpen nowMs).1.record = s.record := by
  unfold closeOrDiscardOpen
  split
  · split
    · exact record_takeOpenBlock s _ _ _
    · rfl
  · rfl

theorem record_onCommandMark (nowMs : Int64) (s : CommandBlockSegmenter) (buffer : List UInt8) :
    (s.onCommandMark buffer nowMs).1.record = s.record := by
  have hclose := record_closeOrDiscardOpen nowMs s
  unfold onCommandMark
  split
  · rfl
  · dsimp only
    split
    · rfl
    · split
      · rfl
      · split
        · unfold onPromptStart
          dsimp only
          split <;> exact hclose
        · unfold onCommandStart
          split
          · rfl
          · exact hclose
        · unfold onExplicitCommand
          split <;> rfl
        · unfold onOutputStart
          dsimp only
          split <;> split <;> rfl
        · unfold onCommandFinished
          split
          · exact record_takeOpenBlock { s with runningSinceMs := none } _ _ _
          · split <;> rfl
        · rfl

theorem record_finishOsc (nowMs : Int64) (s : CommandBlockSegmenter) :
    (s.finishOsc nowMs).1.record = ([], s.finished ++ [s.oscBuffer]) := by
  unfold finishOsc
  dsimp only
  split
  · rfl
  · split
    · split <;> rfl
    · split
      · exact record_onCommandMark nowMs { s with oscBuffer := [], finished := s.finished ++ [s.oscBuffer] } _
      · rfl

end CommandBlockSegmenter

/-- The segmenter's parser state as the sniffer has it, which leaves a CSI
to ground. -/
def Segmenter.State.sniffed : Segmenter.State → Sniffer.State
  | .ground | .csi => .ground
  | .escape => .escape
  | .osc => .osc
  | .oscEscape => .oscEscape
  | .oscDiscard => .oscDiscard
  | .oscDiscardEscape => .oscDiscardEscape
  | .stringConsume => .stringConsume
  | .stringConsumeEscape => .stringConsumeEscape

/-- The two escape parsers are in step. -/
structure InStep (o : OutputSniffer) (s : CommandBlockSegmenter) : Prop where
  state : o.state = s.state.sniffed
  record : (o.oscBuffer, o.finished) = s.record

theorem InStep.classify (hrecord : (o.oscBuffer, o.finished) = s.record) (byte : UInt8) :
    InStep (o.classify byte) (s.classify byte) := by
  have hfinished : o.finished = s.finished := (Prod.mk.inj hrecord).2
  have hspan (state : Segmenter.State) :
      ({ (if s.phase = .output then (s.appendByte esc).appendByte byte else s) with state } :
        CommandBlockSegmenter).record = s.record := by
    split
    · exact (CommandBlockSegmenter.record_appendByte _ byte).trans (s.record_appendByte esc)
    · rfl
  unfold OutputSniffer.classify CommandBlockSegmenter.classify
  by_cases hcsi : byte = leftBracket
  · subst hcsi
    exact ⟨rfl, hrecord.trans (hspan .csi).symm⟩
  · split
    · exact ⟨rfl, by rw [hfinished]; rfl⟩
    · split
      · exact ⟨rfl, hrecord⟩
      · split
        · exact ⟨rfl, hrecord⟩
        · exact ⟨rfl, hrecord.trans (hspan .ground).symm⟩

theorem InStep.step (nowMs nowMs' : Int64)
    (h : InStep o s) (byte : UInt8) : InStep (o.step foreign nowMs byte).1 (s.step nowMs' byte).1 := by
  have hrecord := h.record
  have hbuffer : o.oscBuffer = s.oscBuffer := (Prod.mk.inj hrecord).1
  have hfinished : o.finished = s.finished := (Prod.mk.inj hrecord).2
  have hfinish : ((o.finishOsc foreign nowMs).1.oscBuffer, (o.finishOsc foreign nowMs).1.finished) =
      (s.finishOsc nowMs').1.record := by
    obtain ⟨hempty, hlist⟩ := o.finishOsc_record foreign nowMs
    rw [hempty, hlist, s.record_finishOsc, hbuffer, hfinished]
  have hstate := h.state
  cases hs : s.state with
  | ground =>
    rw [hs] at hstate
    simp only [OutputSniffer.step, CommandBlockSegmenter.step, hs, hstate, Segmenter.State.sniffed]
    split
    · exact ⟨rfl, hrecord⟩
    · have happend : InStep o (s.appendByte byte) :=
        ⟨by rw [s.appendByte_state, hs, hstate], hrecord.trans (s.record_appendByte byte).symm⟩
      split <;> exact happend
  | escape =>
    simp only [OutputSniffer.step, CommandBlockSegmenter.step, hs, hstate, Segmenter.State.sniffed]
    exact InStep.classify hrecord byte
  | csi =>
    rw [hs] at hstate
    -- the CSI's own bytes go to the output, and the sniffer is at ground
    have hspan : (if s.phase = .output then s.appendByte byte else s).record = s.record ∧
        (if s.phase = .output then s.appendByte byte else s).state = .csi := by
      split
      · exact ⟨s.record_appendByte byte, by rw [s.appendByte_state, hs]⟩
      · exact ⟨rfl, hs⟩
    simp only [OutputSniffer.step, CommandBlockSegmenter.step, hs, hstate, Segmenter.State.sniffed]
    by_cases hesc : byte = esc
    · rw [if_pos hesc, if_neg (by rw [hesc]; decide), if_pos hesc]
      exact ⟨rfl, hrecord.trans hspan.1.symm⟩
    · rw [if_neg hesc, if_neg hesc]
      have hground : InStep o (if s.phase = .output then s.appendByte byte else s) :=
        ⟨by rw [hspan.2, hstate], hrecord.trans hspan.1.symm⟩
      have hfinal : InStep o { (if s.phase = .output then s.appendByte byte else s) with state := .ground } :=
        ⟨hstate, hrecord.trans hspan.1.symm⟩
      split <;> split
      · exact hfinal
      · exact hground
      · exact hfinal
      · exact hground
  | osc =>
    simp only [OutputSniffer.step, CommandBlockSegmenter.step, hs, hstate, Segmenter.State.sniffed, hbuffer]
    split
    · exact ⟨rfl, hfinish⟩
    · split
      · exact ⟨rfl, by rw [hfinished]; rfl⟩
      · split <;> exact ⟨rfl, by rw [hfinished]; rfl⟩
  | oscEscape =>
    simp only [OutputSniffer.step, CommandBlockSegmenter.step, hs, hstate, Segmenter.State.sniffed]
    split
    · exact ⟨rfl, hfinish⟩
    · exact InStep.classify (s := { (s.finishOsc nowMs').1 with state := .escape }) hfinish byte
  | oscDiscard =>
    simp only [OutputSniffer.step, CommandBlockSegmenter.step, hs, hstate, Segmenter.State.sniffed]
    repeat' split
    · exact ⟨rfl, hrecord⟩
    · exact ⟨rfl, hrecord⟩
    · exact h
  | oscDiscardEscape =>
    simp only [OutputSniffer.step, CommandBlockSegmenter.step, hs, hstate, Segmenter.State.sniffed]
    split
    · exact ⟨rfl, hrecord⟩
    · exact InStep.classify (s := { s with state := .escape }) hrecord byte
  | stringConsume =>
    simp only [OutputSniffer.step, CommandBlockSegmenter.step, hs, hstate, Segmenter.State.sniffed]
    repeat' split
    · exact ⟨rfl, hrecord⟩
    · exact ⟨rfl, hrecord⟩
    · exact h
  | stringConsumeEscape =>
    simp only [OutputSniffer.step, CommandBlockSegmenter.step, hs, hstate, Segmenter.State.sniffed]
    repeat' split
    all_goals exact ⟨rfl, hrecord⟩

/-- Two fresh readers have finished the same payloads at every point of
the stream. -/
theorem same_payloads (nowMs nowMs' : Int64) (localHostnames : List String) (outputCap : Nat)
    (autoProgressPrefixes : List String) (bytes : List UInt8) :
    ((OutputSniffer.new foreign localHostnames).observe foreign nowMs bytes).1.finished =
      ((CommandBlockSegmenter.new outputCap autoProgressPrefixes).ingest nowMs' bytes).1.finished := by
  have hnew : InStep (.new foreign localHostnames) (.new outputCap autoProgressPrefixes) := ⟨rfl, rfl⟩
  have hrun := feed_simulates InStep (fun _ _ byte h => h.step foreign nowMs nowMs' byte) hnew bytes
  rw [OutputSniffer.observe_eq_feed, CommandBlockSegmenter.ingest_eq_feed]
  exact (Prod.mk.inj hrun.record).2

/-! ## §5 String bodies -/

/-- A string body: it holds neither of the two that end it. -/
def StringBody (body : List UInt8) : Prop := bel ∉ body ∧ ¬ [esc, backslash] <:+: body

instance (body : List UInt8) : Decidable (StringBody body) := inferInstanceAs (Decidable (_ ∧ _))

/-- What ends a string body, or nothing yet. -/
def stringEnds : List (List UInt8) := [[], [bel], [esc, backslash]]

/-- A reader that swallows: `In` inside a body, `Esc` behind an `ESC`
inside it, and `Out` all through it and behind its end. -/
structure Swallows (step : σ → UInt8 → σ × List β) (In Esc Out : σ → Prop) : Prop where
  inside : ∀ s byte, In s → byte ≠ bel →
    (step s byte).2 = [] ∧ if byte = esc then Esc (step s byte).1 else In (step s byte).1
  escaped : ∀ s byte, Esc s → byte ≠ backslash →
    (step s byte).2 = [] ∧ if byte = esc then Esc (step s byte).1 else In (step s byte).1
  bell : ∀ s, In s → (step s bel).2 = [] ∧ Out (step s bel).1
  closed : ∀ s, Esc s → (step s backslash).2 = [] ∧ Out (step s backslash).1
  out : ∀ s, In s ∨ Esc s → Out s

section Swallowing

variable {σ : Type u} {β : Type v} {step : σ → UInt8 → σ × List β} {In Esc Out : σ → Prop}
variable {s : σ}

theorem StringBody.tail {byte : UInt8} {body : List UInt8} (h : StringBody (byte :: body)) :
    byte ≠ bel ∧ StringBody body ∧ (byte = esc → body.head? ≠ some backslash) := by
  obtain ⟨hbel, hend⟩ := h
  rw [List.mem_cons, not_or] at hbel
  refine ⟨Ne.symm hbel.1, ⟨hbel.2, fun hinfix => hend (List.infix_cons hinfix)⟩, ?_⟩
  rintro rfl hhead
  obtain ⟨rest, rfl⟩ := List.head?_eq_some_iff.mp hhead
  exact hend ⟨[], rest, rfl⟩

theorem Swallows.body (h : Swallows step In Esc Out) {body : List UInt8} (hbody : StringBody body)
    (hs : In s ∨ Esc s ∧ body.head? ≠ some backslash) :
    (feed step s body).2 = [] ∧ (In (feed step s body).1 ∨ Esc (feed step s body).1) := by
  induction body generalizing s with
  | nil => exact ⟨rfl, hs.imp_right And.left⟩
  | cons byte body ih =>
    obtain ⟨hbel, hrest, hhead⟩ := hbody.tail
    have hstep : (step s byte).2 = [] ∧ if byte = esc then Esc (step s byte).1 else In (step s byte).1 := by
      rcases hs with hin | ⟨hesc, hnot⟩
      · exact h.inside s byte hin hbel
      · exact h.escaped s byte hesc (by simpa using hnot)
    have hnext : In (step s byte).1 ∨ Esc (step s byte).1 ∧ body.head? ≠ some backslash := by
      grind
    obtain ⟨hsilent, hwithin⟩ := ih hrest hnext
    rw [feed_cons, hstep.1, hsilent]
    exact ⟨rfl, hwithin⟩

theorem Swallows.ending (h : Swallows step In Esc Out) (hs : In s ∨ Esc s) {ending : List UInt8}
    (hending : ending ∈ stringEnds) : (feed step s ending).2 = [] ∧ Out (feed step s ending).1 := by
  simp only [stringEnds, List.mem_cons, List.not_mem_nil, or_false] at hending
  have hescape (hin : In s ∨ Esc s) : (step s esc).2 = [] ∧ Esc (step s esc).1 := by
    rcases hin with hin | hesc
    · simpa using h.inside s esc hin (by decide)
    · simpa using h.escaped s esc hesc (by decide)
  rcases hending with rfl | rfl | rfl
  · exact ⟨rfl, h.out s hs⟩
  · rw [feed_singleton]
    rcases hs with hin | hesc
    · exact h.bell s hin
    · obtain ⟨hsilent, hin⟩ := h.escaped s bel hesc (by decide)
      exact ⟨hsilent, h.out _ (.inl hin)⟩
  · obtain ⟨hsilent, hesc⟩ := hescape hs
    obtain ⟨hquiet, hout⟩ := h.closed _ hesc
    rw [feed_cons, feed_singleton, hsilent, hquiet]
    exact ⟨rfl, hout⟩

theorem Swallows.body_ending (h : Swallows step In Esc Out) (hs : In s) {body ending : List UInt8}
    (hbody : StringBody body) (hending : ending ∈ stringEnds) :
    (feed step s (body ++ ending)).2 = [] ∧ Out (feed step s (body ++ ending)).1 := by
  obtain ⟨hsilent, hwithin⟩ := h.body hbody (.inl hs)
  obtain ⟨hquiet, hout⟩ := h.ending hwithin hending
  rw [feed_append, hsilent, hquiet]
  exact ⟨rfl, hout⟩

end Swallowing

theorem introducer_ne {c : UInt8} (h : c ∈ stringIntroducers) :
    c ≠ backslash ∧ c ≠ bel ∧ c ≠ esc ∧ c ≠ leftBracket ∧ c ≠ rightBracket := by
  simp only [stringIntroducers, List.mem_cons, List.not_mem_nil, or_false] at h
  rcases h with rfl | rfl | rfl | rfl <;> decide

namespace OutputSniffer

variable (foreign : Foreign) (nowMs : Int64)
variable {c : UInt8}

theorem swallows : Swallows (step foreign nowMs) (·.state = .stringConsume) (·.state = .stringConsumeEscape)
    fun _ => True where
  inside s byte h hbel := by
    simp only [step, h, hbel, if_false]
    split <;> simp [h]
  escaped s byte h hback := by
    simp only [step, h, hback, if_false]
    split <;> simp
  bell s h := by simp [step, h]
  closed s h := by simp [step, h]
  out _ _ := trivial

/-- The states behind an `ESC`. -/
def escaped (s : OutputSniffer) : Prop :=
  s.state = .escape ∨ s.state = .oscEscape ∨ s.state = .oscDiscardEscape ∨ s.state = .stringConsumeEscape

theorem step_esc (s : OutputSniffer) : (s.step foreign nowMs esc).1.escaped ∧
    (s.state ≠ .osc ∧ s.state ≠ .oscEscape →
      (s.step foreign nowMs esc).2 = [] ∧ (s.step foreign nowMs esc).1.state ≠ .oscEscape) := by
  have hbel : esc ≠ bel := by decide
  have hback : esc ≠ backslash := by decide
  have hescape (s : OutputSniffer) : (s.classify esc).state = .escape := by
    rw [classify, if_neg (by decide), if_neg (by decide), if_pos rfl]
  cases hs : s.state with
  | ground => simp [step, hs, escaped]
  | escape => simp [step, hs, escaped, hescape]
  | osc => simp [step, hs, escaped, hbel]
  | oscEscape => simp [step, hs, escaped, hback, hescape]
  | oscDiscard => simp [step, hs, escaped, hbel]
  | oscDiscardEscape => simp [step, hs, escaped, hback, hescape]
  | stringConsume => simp [step, hs, escaped, hbel]
  | stringConsumeEscape => simp [step, hs, escaped, hback]

theorem step_introducer {s : OutputSniffer} (h : s.escaped) (hc : c ∈ stringIntroducers) :
    (s.step foreign nowMs c).1.state = .stringConsume ∧
      (s.state ≠ .oscEscape → (s.step foreign nowMs c).2 = []) := by
  obtain ⟨hback, -, hesc, -, hright⟩ := introducer_ne hc
  have hclassify (s : OutputSniffer) : (s.classify c).state = .stringConsume := by
    simp [classify, hright, hc]
  rcases h with hs | hs | hs | hs
  · simp [step, hs, hclassify]
  · simp [step, hs, hback, hclassify]
  · simp [step, hs, hback, hclassify]
  · simp [step, hs, hback, hesc]

/-- Behind an introducer the sniffer swallows, and the introducer says
nothing of its own. -/
theorem introduced (s : OutputSniffer) (hc : c ∈ stringIntroducers) :
    (feed (step foreign nowMs) s [esc, c]).1.state = .stringConsume ∧
      (s.state ≠ .osc ∧ s.state ≠ .oscEscape → (feed (step foreign nowMs) s [esc, c]).2 = []) := by
  obtain ⟨hescaped, hsilent⟩ := step_esc foreign nowMs s
  obtain ⟨hstate, hquiet⟩ := step_introducer foreign nowMs hescaped hc
  rw [feed_cons, feed_singleton]
  refine ⟨hstate, fun hnot => ?_⟩
  obtain ⟨hnone, hne⟩ := hsilent hnot
  rw [hnone, hquiet hne]
  rfl

theorem string_silent (s : OutputSniffer) (hc : c ∈ stringIntroducers) {body ending : List UInt8}
    (hbody : StringBody body) (hending : ending ∈ stringEnds) :
    (s.observe foreign nowMs ([esc, c] ++ (body ++ ending))).2 = (s.observe foreign nowMs [esc, c]).2 := by
  have hin := (introduced foreign nowMs s hc).1
  have hsilent := ((swallows foreign nowMs).body_ending hin hbody hending).1
  rw [observe_eq_feed, observe_eq_feed, feed_append, hsilent, List.append_nil]

end OutputSniffer

namespace CommandBlockSegmenter

variable (nowMs : Int64)
variable {c : UInt8}

theorem swallows (p : List SyntheticProgress) : Swallows (step nowMs)
    (fun s => s.state = .stringConsume ∧ s.pendingProgress = p)
    (fun s => s.state = .stringConsumeEscape ∧ s.pendingProgress = p) (·.pendingProgress = p) where
  inside s byte h hbel := by
    simp only [step, h.1, hbel, if_false]
    split <;> simp [h.1, h.2]
  escaped s byte h hback := by
    simp only [step, h.1, hback, if_false]
    split <;> simp [h.2]
  bell s h := by simp [step, h.1, h.2]
  closed s h := by simp [step, h.1, h.2]
  out _ h := h.elim And.right And.right

/-- The states behind an `ESC`. -/
def escaped (s : CommandBlockSegmenter) : Prop :=
  s.state = .escape ∨ s.state = .oscEscape ∨ s.state = .oscDiscardEscape ∨ s.state = .stringConsumeEscape

@[simp] theorem pendingProgress_appendByte (s : CommandBlockSegmenter) (byte : UInt8) :
    (s.appendByte byte).pendingProgress = s.pendingProgress := by
  unfold appendByte
  split <;> try split
  all_goals rfl

theorem step_esc (s : CommandBlockSegmenter) : (s.step nowMs esc).1.escaped ∧
    (s.state ≠ .osc ∧ s.state ≠ .oscEscape → (s.step nowMs esc).2 = [] ∧
      (s.step nowMs esc).1.pendingProgress = s.pendingProgress ∧
      (s.step nowMs esc).1.state ≠ .oscEscape) := by
  have hbel : esc ≠ bel := by decide
  have hback : esc ≠ backslash := by decide
  have hfinal : isFinal esc = false := by decide
  have hescape (s : CommandBlockSegmenter) : s.classify esc = { s with state := .escape } := by
    rw [classify, if_neg (by decide), if_neg (by decide), if_neg (by decide), if_pos rfl]
  cases hs : s.state with
  | ground => simp [step, hs, escaped]
  | escape => simp [step, hs, escaped, hescape]
  | csi =>
    by_cases hphase : s.phase = .output
    · simp [step, hs, hfinal, hphase, escaped]
    · simp [step, hs, hfinal, hphase, escaped]
  | osc => simp [step, hs, escaped, hbel]
  | oscEscape => simp [step, hs, escaped, hback, hescape]
  | oscDiscard => simp [step, hs, escaped, hbel]
  | oscDiscardEscape => simp [step, hs, escaped, hback, hescape]
  | stringConsume => simp [step, hs, escaped, hbel]
  | stringConsumeEscape => simp [step, hs, escaped, hback]

theorem step_introducer {s : CommandBlockSegmenter} (h : s.escaped) (hc : c ∈ stringIntroducers) :
    (s.step nowMs c).1.state = .stringConsume ∧ (s.state ≠ .oscEscape →
      (s.step nowMs c).2 = [] ∧ (s.step nowMs c).1.pendingProgress = s.pendingProgress) := by
  obtain ⟨hback, -, hesc, hleft, hright⟩ := introducer_ne hc
  have hclassify (s : CommandBlockSegmenter) : s.classify c = { s with state := .stringConsume } := by
    simp [classify, hleft, hright, hc]
  rcases h with hs | hs | hs | hs
  · simp [step, hs, hclassify]
  · simp [step, hs, hback, hclassify]
  · simp [step, hs, hback, hclassify]
  · simp [step, hs, hback, hesc]

/-- Behind an introducer the segmenter swallows, and the introducer closes
nothing of its own. -/
theorem introduced (s : CommandBlockSegmenter) (hc : c ∈ stringIntroducers) :
    (feed (step nowMs) s [esc, c]).1.state = .stringConsume ∧ (s.state ≠ .osc ∧ s.state ≠ .oscEscape →
      (feed (step nowMs) s [esc, c]).2 = [] ∧
        (feed (step nowMs) s [esc, c]).1.pendingProgress = s.pendingProgress) := by
  obtain ⟨hescaped, hsilent⟩ := step_esc nowMs s
  obtain ⟨hstate, hquiet⟩ := step_introducer nowMs hescaped hc
  rw [feed_cons, feed_singleton]
  refine ⟨hstate, fun hnot => ?_⟩
  obtain ⟨hnone, hsame, hne⟩ := hsilent hnot
  obtain ⟨hnone', hsame'⟩ := hquiet hne
  rw [hnone, hnone']
  exact ⟨rfl, hsame'.trans hsame⟩

theorem string_silent (s : CommandBlockSegmenter) (hc : c ∈ stringIntroducers)
    {body ending : List UInt8} (hbody : StringBody body) (hending : ending ∈ stringEnds) :
    (s.ingest nowMs ([esc, c] ++ (body ++ ending))).2 = (s.ingest nowMs [esc, c]).2 ∧
      (s.ingest nowMs ([esc, c] ++ (body ++ ending))).1.pendingProgress =
        (s.ingest nowMs [esc, c]).1.pendingProgress := by
  have hin := (introduced nowMs s hc).1
  obtain ⟨hsilent, hout⟩ := (swallows nowMs _).body_ending ⟨hin, rfl⟩ hbody hending
  rw [ingest_eq_feed, ingest_eq_feed, feed_append, hsilent, List.append_nil]
  exact ⟨rfl, hout⟩

end CommandBlockSegmenter

/-! ## §6 The two readers -/

/-- However the bytes are cut, each reader gives what it gives on the
whole stream, which is what stepping over every byte gives, and so does a
caller that drains the progress after every chunk; behind every prefix the
two have finished the same payloads; and from an introducer to the end of
its body nothing comes out of either, but what an OSC in front of the
introducer's `ESC` had to say. -/
theorem stream_readers (foreign : Foreign) (nowMs : Int64) :
    (∀ (o : OutputSniffer) (chunks : List (List UInt8)),
      feedChunks (OutputSniffer.observe foreign nowMs) o chunks = o.observe foreign nowMs chunks.flatten ∧
        o.observe foreign nowMs chunks.flatten = feed (OutputSniffer.step foreign nowMs) o chunks.flatten) ∧
    (∀ (s : CommandBlockSegmenter) (chunks : List (List UInt8)),
      feedChunks (CommandBlockSegmenter.ingest nowMs) s chunks = s.ingest nowMs chunks.flatten ∧
        s.ingest nowMs chunks.flatten = feed (CommandBlockSegmenter.step nowMs) s chunks.flatten ∧
        (let read := feedChunks (CommandBlockSegmenter.ingestDrained nowMs) s chunks
         read.2.filterMap Sum.getLeft? = (s.ingest nowMs chunks.flatten).2 ∧
           read.2.filterMap Sum.getRight? ++ read.1.pendingProgress =
             (s.ingest nowMs chunks.flatten).1.pendingProgress)) ∧
    (∀ (localHostnames : List String) (outputCap : Nat) (autoProgressPrefixes : List String) (nowMs' : Int64)
      (bytes : List UInt8) (k : Nat),
      ((OutputSniffer.new foreign localHostnames).observe foreign nowMs (bytes.take k)).1.finished =
        ((CommandBlockSegmenter.new outputCap autoProgressPrefixes).ingest nowMs' (bytes.take k)).1.finished) ∧
    (∀ (c : UInt8) (body ending : List UInt8), c ∈ stringIntroducers → StringBody body → ending ∈ stringEnds →
      (∀ o : OutputSniffer,
        (o.observe foreign nowMs ([esc, c] ++ (body ++ ending))).2 = (o.observe foreign nowMs [esc, c]).2 ∧
          (o.state ≠ .osc ∧ o.state ≠ .oscEscape → (o.observe foreign nowMs [esc, c]).2 = [])) ∧
      ∀ s : CommandBlockSegmenter,
        (s.ingest nowMs ([esc, c] ++ (body ++ ending))).2 = (s.ingest nowMs [esc, c]).2 ∧
          (s.ingest nowMs ([esc, c] ++ (body ++ ending))).1.pendingProgress =
            (s.ingest nowMs [esc, c]).1.pendingProgress ∧
          (s.state ≠ .osc ∧ s.state ≠ .oscEscape → (s.ingest nowMs [esc, c]).2 = [] ∧
            (s.ingest nowMs [esc, c]).1.pendingProgress = s.pendingProgress)) := by
  refine ⟨?_, ?_, ?_, ?_⟩
  · intro o chunks
    exact ⟨feed_chunks (OutputSniffer.observe_eq_feed foreign nowMs) o chunks,
      o.observe_eq_feed foreign nowMs chunks.flatten⟩
  · intro s chunks
    obtain ⟨hstate, hblocks⟩ := CommandBlockSegmenter.drained nowMs s chunks
    refine ⟨feed_chunks (CommandBlockSegmenter.ingest_eq_feed nowMs) s chunks,
      s.ingest_eq_feed nowMs chunks.flatten, hblocks.symm, ?_⟩
    rw [hstate]
    rfl
  · intro localHostnames outputCap autoProgressPrefixes nowMs' bytes k
    exact same_payloads foreign nowMs nowMs' localHostnames outputCap autoProgressPrefixes _
  · intro c body ending hc hbody hending
    refine ⟨fun o => ⟨o.string_silent foreign nowMs hc hbody hending, fun hnot => ?_⟩, fun s => ?_⟩
    · rw [OutputSniffer.observe_eq_feed]
      exact (o.introduced foreign nowMs hc).2 hnot
    · obtain ⟨hblocks, hprogress⟩ := s.string_silent nowMs hc hbody hending
      refine ⟨hblocks, hprogress, fun hnot => ?_⟩
      rw [CommandBlockSegmenter.ingest_eq_feed]
      exact (s.introduced nowMs hc).2 hnot

/-- An APC body with the start of a title in it. -/
theorem stream_readers_spoofed :
    ((OutputSniffer.new ⟨id, fun _ => none⟩ []).observe ⟨id, fun _ => none⟩ 0
      ([esc, 0x5F] ++ ([esc, rightBracket, 0x32, semicolon, 0x78] ++ [bel]))).2 =
      ((OutputSniffer.new ⟨id, fun _ => none⟩ []).observe ⟨id, fun _ => none⟩ 0 [esc, 0x5F]).2 :=
  ((stream_readers ⟨id, fun _ => none⟩ 0).2.2.2 0x5F [esc, rightBracket, 0x32, semicolon, 0x78] [bel]
    (by decide) (by decide) (by decide)).1 _ |>.1

end SlopDesk.Superd
