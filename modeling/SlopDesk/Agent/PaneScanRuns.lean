/-
SlopDesk.Agent.PaneScanRuns — a final screen is read, and only a settled one
is published.

§2 a decision publishes, finds nothing to publish, or is one of at most three
that are held. §3 what a quiet tick does. §4 the run: once the frame's cap is
past, four decisions are enough.
-/
import Mathlib.Algebra.Order.Ring.Int
import SlopDesk.Agent.PaneScan
import SlopDesk.Base.Runs

namespace SlopDesk.Agent.Scan

open SlopDesk.Base

variable {τ γ : Type} {v : Detection} {s : PaneScan τ} {view : γ → Verdict} {w : Watched τ γ} {t : Tick τ γ}
  {since now : τ}

/-! ## §1 What is shown -/

/-- What the publish gate compares. -/
def Detection.shown (d : Detection) : AgentScreenState × Bool × Bool × Bool :=
  (d.state, d.visibleIdle, d.visibleBlocker, d.visibleWorking)

/-- How many more reads it can hold back. -/
def Confirmation.left (c : Confirmation τ) : Nat := if c.startedAt.isSome then 2 - c.confirmations else 3

def AgentDetectionHold.left (h : AgentDetectionHold τ) (previous : Detection) : Nat :=
  if previous.state = .working then h.pendingIdle.left else h.pendingUnblock.left

/-- A verdict that asks to skip the update, or that what was last published agrees with. -/
def PaneScan.Shows (s : PaneScan τ) (v : Detection) : Prop :=
  v.skipStateUpdate = true ∨ (s.lastPublished.getD {}).shown = v.shown

def PaneScan.left (s : PaneScan τ) : Nat := s.hold.left (s.lastPublished.getD {})

theorem left_lt (s : PaneScan τ) : s.left < 4 := by
  unfold PaneScan.left AgentDetectionHold.left Confirmation.left
  split_ifs <;> omega

/-- What a tick does for a verdict `v`: nothing at all (in time, only to an idle
pane), or it leaves `v` shown, or it holds `v` back. -/
def Looks (v : Detection) (late : Prop) (s s' : PaneScan τ) : Prop :=
  s'.hold = s.hold ∧ s'.lastPublished = s.lastPublished ∧ (late → s.restsIdle = true) ∨ s'.Shows v ∨
    s'.lastPublished = s.lastPublished ∧ s'.hold.isHoldingIdle = true ∧ s'.left < s.left

/-- Shown wherever nothing would look for it, and soon shown elsewhere. -/
def Settled (v : Detection) (n : Nat) (s : PaneScan τ) : Prop :=
  (s.restsIdle = true → s.Shows v) ∧ (s.Shows v ∨ s.left < n)

theorem Looks.settled {s' : PaneScan τ} {late : Prop} {n : Nat} (h : Looks v late s s') (hs : Settled v n s) :
    Settled v n s' ∧ (late → Settled v (n - 1) s') := by
  obtain ⟨hrests, hshows⟩ := hs
  rcases h with ⟨hhold, hpublished, hlate⟩ | h | ⟨hpublished, hholding, hleft⟩
  · simp only [Settled, PaneScan.restsIdle, PaneScan.Shows, PaneScan.left, hhold, hpublished] at *
    exact ⟨⟨hrests, hshows⟩, fun h => ⟨hrests, .inl (hrests (hlate h))⟩⟩
  · exact ⟨⟨fun _ => h, .inl h⟩, fun _ => ⟨fun _ => h, .inl h⟩⟩
  · have hnot : ¬ s'.restsIdle = true := by simp [PaneScan.restsIdle, hholding]
    have hkept : s.Shows v → s'.Shows v := by simp [PaneScan.Shows, hpublished]
    exact ⟨⟨(absurd · hnot), hshows.imp hkept fun _ => by omega⟩,
      fun _ => ⟨(absurd · hnot), hshows.imp hkept fun _ => by omega⟩⟩

theorem anchor_frame (s : PaneScan τ) (now : τ) : ∃ x g,
    s.anchorOpenFrame now = { s with syncFrameOpenSince := x, syncFrameAnchorGeneration := g } ∧
      (∀ y ∈ x, y = now ∨ y ∈ s.syncFrameOpenSince) ∧ (s.frameOpen = true → x.isSome) := by
  unfold PaneScan.anchorOpenFrame
  split_ifs with hclosed hanchor
  · exact ⟨none, none, rfl, by simp, fun h => by simp [h] at hclosed⟩
  · exact ⟨some now, _, rfl, by simp, fun _ => rfl⟩
  · exact ⟨_, _, rfl, fun _ => .inr, fun _ => by simp_all [Option.isSome_iff_ne_none]⟩

/-! ## §2 Decisions -/

variable [AddCommGroupWithOne τ] [LinearOrder τ]

theorem hold_spec (c : Confirmation τ) (transitioning : Bool) (now : τ) : c.hold transitioning now = (false, {}) ∨
    transitioning = true ∧ ∃ c', c.hold transitioning now = (true, c') ∧ c'.startedAt.isSome ∧ c'.left < c.left := by
  obtain ⟨startedAt, confirmations⟩ := c
  unfold Confirmation.hold
  cases transitioning with
  | false => exact .inl rfl
  | true =>
    cases startedAt with
    | none => exact .inr ⟨rfl, _, rfl, rfl, by simp [Confirmation.left]⟩
    | some startedAt =>
      by_cases hdone : 7 ≤ now - startedAt ∨ 3 ≤ confirmations + 1
      · exact .inl (if_pos hdone)
      · refine .inr ⟨rfl, ⟨some startedAt, confirmations + 1⟩, if_neg hdone, rfl, ?_⟩
        simp only [Confirmation.left, Option.isSome_some, if_true]
        omega

/-- One decision: it is held, and fewer are left, or it leaves nothing unsaid. -/
theorem decide_spec (h : AgentDetectionHold τ) (previous next : Detection) (refresh : Option τ) (now : τ) :
    let decided := h.decide previous next false false refresh now
    decided.1 = false ∧ decided.2.isHoldingIdle = true ∧ decided.2.left previous < h.left previous ∨
      (decided.1 = false → previous.shown = next.shown) := by
  have hworking := hold_spec h.pendingIdle (previous.state = .working && next.state = .idle && !next.visibleIdle &&
    !next.visibleBlocker && !false && !false) now
  have hblocked := hold_spec h.pendingUnblock (previous.state = .blocked && next.state = .idle && !false && !false) now
  unfold AgentDetectionHold.decide AgentDetectionHold.shouldHoldWorkingToIdle AgentDetectionHold.shouldHoldBlockedToIdle
  dsimp only
  rcases hworking with hw | ⟨htrans, c, hw, hsome, hleft⟩
  · rcases hblocked with hu | ⟨htrans, c, hu, hsome, hleft⟩
    · rw [hw, hu]
      exact .inr (by simp +contextual [AgentDetectionHold.shouldPublish, Detection.shown])
    · rw [hw, hu]
      simp only [Bool.and_eq_true, decide_eq_true_eq] at htrans
      exact .inl (by simp [AgentDetectionHold.isHoldingIdle, AgentDetectionHold.left, htrans, hsome, hleft])
  · rw [hw]
    simp only [Bool.and_eq_true, decide_eq_true_eq] at htrans
    exact .inl (by simp [AgentDetectionHold.isHoldingIdle, AgentDetectionHold.left, htrans, hsome, hleft])

/-! ## §3 A quiet tick -/

theorem plan_quiet (hq : Quiet w t) : w.scan.plan t.input =
    (⟨w.scan.gridIsStale || (!w.scan.mute && w.scan.cached.isNone), w.scan.gridIsStale, false, w.scan.mute⟩,
      w.scan.planned t.input.now) := by
  obtain ⟨-, -, hagent, hgrace, hinput⟩ := hq
  have hsettled : ¬ (w.scan.agentSince.any fun since => t.input.now - since < 30) = true := by
    cases hsince : w.scan.agentSince with
    | none => simp
    | some since => simpa [hsince] using hgrace
  have hnone : ¬ w.scan.lastAgent.isNone = true := by simpa [Option.isSome_iff_ne_none] using hagent
  have hsuppression : w.scan.suppression t.input false true = if w.scan.mute then some 3 else none := by
    unfold PaneScan.suppression PaneScan.mute
    rw [if_neg (by rw [hinput]; exact hnone), if_neg hsettled]
    cases w.scan.restsIdle <;> simp
  rw [hinput] at hsuppression ⊢
  unfold PaneScan.plan
  simp only [ne_eq, not_true_eq_false, decide_false, decide_true, Bool.false_eq_true, if_false, or_self,
    Bool.not_true, Bool.and_false, Bool.not_false, Bool.and_true, hsuppression, hnone, Bool.or_false]
  cases hmute : w.scan.mute <;> simp [PaneScan.planned, hmute]

/-- An open frame is anchored, at `since` or before. -/
def PaneScan.Anchored (s : PaneScan τ) (since : τ) : Prop := s.frameOpen = true →
  s.syncFrameAnchorGeneration = some s.frameGeneration ∧ ∃ x ≤ since, s.syncFrameOpenSince = some x

theorem anchored (h : s.Anchored since ∨ since = now ∧ ∀ x ∈ s.syncFrameOpenSince, x ≤ now) :
    (s.anchorOpenFrame now).Anchored since := by
  unfold PaneScan.anchorOpenFrame
  split
  · simp_all [PaneScan.Anchored]
  · split
    · rcases h with h | ⟨rfl, h⟩
      · simp_all [PaneScan.Anchored]
      · exact fun _ => ⟨rfl, _, le_refl _, rfl⟩
    · rename_i hold
      rcases h with h | ⟨rfl, h⟩
      · exact h
      · cases hsince : s.syncFrameOpenSince with
        | none => simp [hsince] at hold
        | some x => exact fun _ => ⟨by simpa [hsince] using hold, x, h x hsince, hsince⟩

theorem gate_frame (s : PaneScan τ) :
    ∃ hold p at', s.gate.2 = { s with hold, lastPublished := p, lastPublishedAt := at' } := by
  simp only [PaneScan.gate, PaneScan.weigh]
  repeat' split
  all_goals exact ⟨_, _, _, rfl⟩

theorem weigh_looks (late : Prop) (h : s.pending.agentChanged = false) : Looks v late s (s.weigh v).2 := by
  have hdecide := decide_spec s.hold (s.lastPublished.getD {}) v s.lastPublishedAt s.pending.now
  unfold PaneScan.weigh
  rw [h]
  dsimp only at hdecide ⊢
  split
  · exact .inr (.inl (.inr rfl))
  · rename_i hquiet
    rcases hdecide with ⟨-, hholding, hleft⟩ | hshown
    · exact .inr (.inr ⟨rfl, hholding, hleft⟩)
    · exact .inr (.inl (.inr (hshown (by simpa using hquiet))))

/-- A scan whose grid is up to date, and whose verdict is known where it is asked for. -/
structure Ready (v : Detection) (s : PaneScan τ) : Prop where
  fresh : s.gridIsStale = false
  repainted : s.awaitingRepaintAfterRebuild = false
  cached : s.restsIdle = true ∨ s.cached = some v

theorem gate_looks [IsOrderedAddMonoid τ] (h : Ready v s) (hpending : s.pending = (s.planned now).pending)
    (hanchored : s.Anchored since) :
    (s.restsIdle = true → s.gate.2 = s) ∧ Looks v (since + 10 ≤ now) s s.gate.2 := by
  have hsuppression : s.pending.suppression = if s.restsIdle then some 3 else none := by
    rw [hpending]
    simp [PaneScan.planned, PaneScan.mute, h.repainted]
  unfold PaneScan.gate
  rw [hsuppression]
  by_cases hrests : s.restsIdle = true
  · rw [if_pos hrests]
    exact ⟨fun _ => rfl, .inl ⟨rfl, rfl, fun _ => hrests⟩⟩
  · refine ⟨fun h => absurd h hrests, ?_⟩
    rw [if_neg hrests, h.cached.resolve_left hrests]
    dsimp only
    split
    · rename_i hmid
      refine .inl ⟨rfl, rfl, fun hlate => ?_⟩
      -- the cap of an anchored frame is past
      simp only [PaneScan.midFrame, Bool.and_eq_true] at hmid
      obtain ⟨-, x, hx, hsince⟩ := hanchored hmid.1
      have hcap : now - x < 10 := by simpa [hsince, hpending, PaneScan.planned] using hmid.2
      exact absurd (le_sub_left_of_add_le (le_trans (add_le_add_left hx _) hlate)) (not_le.mpr hcap)
    · split
      · rename_i hskip
        exact .inr (.inl (.inl hskip))
      · exact weigh_looks _ (by rw [hpending]; rfl)

theorem Ready.conclude [IsOrderedAddMonoid τ] (h : Ready v s) (hpending : s.pending = (s.planned now).pending)
    (hanchor : s.Anchored since ∨ since = now ∧ ∀ x ∈ s.syncFrameOpenSince, x ≤ now) : let s' := s.conclude.2
    Ready v s' ∧ s'.Anchored since ∧ Looks v (since + 10 ≤ now) s s' := by
  have hnow : s.pending.now = now := by rw [hpending]; rfl
  have hanchored := anchored hanchor
  obtain ⟨x, g, hopen, -⟩ := anchor_frame s now
  unfold PaneScan.conclude
  rw [hnow]
  rw [hopen] at hanchored ⊢
  obtain ⟨hrests, hlooks⟩ := gate_looks (s := { s with syncFrameOpenSince := x, syncFrameAnchorGeneration := g })
    ⟨h.fresh, h.repainted, h.cached⟩ hpending hanchored
  obtain ⟨hold, p, at', hgate⟩ := gate_frame { s with syncFrameOpenSince := x, syncFrameAnchorGeneration := g }
  refine ⟨?_, by rw [hgate]; exact hanchored, hlooks⟩
  rcases h.cached with hidle | hcached
  · rw [hrests hidle]
    exact ⟨h.fresh, h.repainted, h.cached⟩
  · rw [hgate]
    exact ⟨h.fresh, h.repainted, .inr hcached⟩

/-! ## §4 The run -/

/-- A verdict that is kept is that of the grid. -/
def Kept (view : γ → Verdict) (w : Watched τ γ) : Prop := ∀ c ∈ w.scan.cached, c = (view w.grid).detection

/-- What holds between ticks: besides, no frame was anchored after the last tick. -/
def Inv (view : γ → Verdict) (w : Watched τ γ) : Prop :=
  Kept view w ∧ ∀ x ∈ w.scan.syncFrameOpenSince, x ≤ w.scan.pending.now

theorem conclude_frame (s : PaneScan τ) : s.conclude.2.cached = s.cached ∧ s.conclude.2.pending = s.pending ∧
    ∀ x ∈ s.conclude.2.syncFrameOpenSince, x = s.pending.now ∨ x ∈ s.syncFrameOpenSince := by
  obtain ⟨x, g, hopen, hsince, -⟩ := anchor_frame s s.pending.now
  obtain ⟨hold, p, at', hgate⟩ := gate_frame (s.anchorOpenFrame s.pending.now)
  unfold PaneScan.conclude
  rw [hgate, hopen]
  exact ⟨rfl, rfl, hsince⟩

theorem plan_frame (s : PaneScan τ) (input : ScanInput τ) : let planned := s.plan input
    (planned.2.cached = none ∨ planned.2.cached = s.cached) ∧ planned.2.pending.now = input.now ∧
      planned.2.syncFrameOpenSince = s.syncFrameOpenSince ∧
      planned.2.pending.labelSuppressed = planned.1.labelSuppressed := by
  refine ⟨?_, rfl, ?_, rfl⟩ <;> simp only [PaneScan.plan] <;> split_ifs <;> simp

theorem kept_step (h : Kept view w) (t : Tick τ γ) : Kept view (w.step view t) := by
  obtain ⟨hplan, -, -, hlabel⟩ := plan_frame w.scan t.input
  have hkept : ∀ c ∈ (w.scan.plan t.input).2.cached, c = (view w.grid).detection := by
    rcases hplan with hplan | hplan <;> simp_all [Kept]
  unfold Watched.step Watched.tick Watched.exchange Kept
  dsimp only
  split
  · rw [PaneScan.finish, (conclude_frame _).1]
    exact hkept
  · split
    · simp [PaneScan.finish]
    · rw [PaneScan.finish, (conclude_frame _).1]
      simp only [hlabel, answer]
      split <;> simp

theorem inv_step (h : Inv view w) (hf : Forward w t) : Inv view (w.step view t) := by
  obtain ⟨-, hnow, hopen, -⟩ := plan_frame w.scan t.input
  have hbefore : ∀ x ∈ w.scan.syncFrameOpenSince, x ≤ t.input.now := fun x hx => le_trans (h.2 x hx) hf
  have hafter : ∀ s : PaneScan τ, s.pending.now = t.input.now → s.syncFrameOpenSince = w.scan.syncFrameOpenSince →
      ∀ x ∈ s.conclude.2.syncFrameOpenSince, x ≤ s.conclude.2.pending.now := by
    intro s hpending hs x hx
    obtain ⟨-, hp, hframe⟩ := conclude_frame s
    rw [hp, hpending]
    rcases hframe x hx with rfl | hx
    · exact le_of_eq hpending
    · exact hbefore x (hs ▸ hx)
  refine ⟨kept_step h.1 t, ?_⟩
  unfold Watched.step Watched.tick Watched.exchange
  dsimp only
  split
  · exact hafter _ hnow hopen
  · split
    · simpa [PaneScan.finish, hnow, hopen] using hbefore
    · exact hafter _ hnow hopen

/-- A quiet tick's exchange, if it makes one, leaves a scan ready. -/
theorem quiet_concludes (h : Inv view w) (hq : Quiet w t) (hrepainted : w.scan.awaitingRepaintAfterRebuild = false) :
    ∃ s, (w.step view t).scan = s.conclude.2 ∧ Ready (view (w.step view t).grid).detection s ∧
      s.pending = (s.planned t.input.now).pending ∧ s.hold = w.scan.hold ∧ s.lastPublished = w.scan.lastPublished ∧
      s.syncFrameOpenSince = w.scan.syncFrameOpenSince := by
  have hmute : w.scan.mute = w.scan.restsIdle := by simp [PaneScan.mute, hrepainted]
  obtain ⟨grid, hlands⟩ := Option.isSome_iff_exists.mp hq.2.1
  unfold Watched.step Watched.tick Watched.exchange
  rw [plan_quiet hq, hlands]
  dsimp only
  split
  · rename_i hexchange
    simp only [hmute, Bool.not_eq_true', Bool.or_eq_false_iff] at hexchange
    refine ⟨w.scan.planned t.input.now, rfl, ⟨hexchange.1, hrepainted, ?_⟩, rfl, rfl, rfl, rfl⟩
    cases hcached : w.scan.cached with
    | none => exact .inl (show w.scan.restsIdle = true by simpa [hcached] using hexchange.2)
    | some c => exact .inr (by rw [← h.1 c hcached]; exact hcached)
  · refine ⟨_, rfl, ⟨rfl, hrepainted, ?_⟩, rfl, rfl, rfl, rfl⟩
    by_cases hrests : w.scan.restsIdle = true
    · exact .inl hrests
    · exact .inr (by simp [PaneScan.planned, hmute, hrests, answer])

/-- A scan that is ready makes no exchange of a quiet tick. -/
theorem ready_step (h : Ready (view w.grid).detection w.scan) (hq : Quiet w t) :
    w.step view t = ⟨(w.scan.planned t.input.now).conclude.2, w.grid⟩ := by
  have hexchange : (w.scan.gridIsStale || (!w.scan.mute && w.scan.cached.isNone)) = false := by
    rcases h.cached with hidle | hcached
    · simp [h.fresh, PaneScan.mute, hidle]
    · simp [h.fresh, hcached]
  unfold Watched.step Watched.tick Watched.exchange
  rw [plan_quiet hq, hexchange]
  rfl

theorem quiet_run [IsOrderedAddMonoid τ] {ops : List (Tick τ γ)} (hq : Meets (Watched.step view) Quiet w ops)
    (h : Ready v w.scan) (hv : (view w.grid).detection = v) (hanchored : w.scan.Anchored since) : let w' := run (Watched.step view) w ops
    w'.grid = w.grid ∧ ∀ n, Settled v n w.scan → Settled v (n - ops.countP (since + 10 ≤ ·.input.now)) w'.scan := by
  induction ops generalizing w with
  | nil => exact ⟨rfl, fun n hs => hs⟩
  | cons t ops ih =>
    obtain ⟨hready, hstill, hlooks⟩ := Ready.conclude (s := w.scan.planned t.input.now)
      ⟨h.fresh, h.repainted, h.cached⟩ rfl (.inl hanchored)
    have hstep := ready_step (hv ▸ h) hq.1
    obtain ⟨hgrid, hrun⟩ := ih hq.2 (by rw [hstep]; exact hready) (by rw [hstep]; exact hv) (by rw [hstep]; exact hstill)
    refine ⟨by rw [run_cons, hgrid, hstep], fun n hs => ?_⟩
    obtain ⟨hkept, hlate⟩ := Looks.settled hlooks hs
    rw [List.countP_cons]
    rw [hstep] at hrun
    split
    · rename_i hpast
      rw [Nat.add_comm, Nat.sub_add_eq, run_cons, hstep]
      exact hrun _ (hlate (by simpa using hpast))
    · rw [run_cons, hstep]
      exact hrun _ hkept

/-- A final screen is read. Past an agent's startup, nothing comes any more: whatever
the ticks before did, a first quiet tick that awaits no repaint, and does not find the
pane resting on an idle of an older screen, is the first of a run in which four ticks
past the open frame's cap leave the verdict on the final grid published. -/
theorem final_screen_read [IsOrderedAddMonoid τ] (view : γ → Verdict) (grid : γ) (before quiet : List (Tick τ γ))
    (first : Tick τ γ) (hclock : Meets (Watched.step view) Forward ⟨.new, grid⟩ before)
    (hquiet : Meets (Watched.step view) Quiet (run (Watched.step view) ⟨.new, grid⟩ before) (first :: quiet)) :
    let w := run (Watched.step view) ⟨.new, grid⟩ before
    let w' := run (Watched.step view) w (first :: quiet)
    let final := (view w'.grid).detection
    w.scan.awaitingRepaintAfterRebuild = false → (w.scan.restsIdle = true → w.scan.Shows final) →
      4 ≤ quiet.countP (first.input.now + 10 ≤ ·.input.now) → w'.scan.Shows final := by
  intro w w' final hrepainted hidle hcount
  have hinv : Inv view w := hclock.invariant (Inv view) (fun _ _ hf h => inv_step h hf)
    ⟨by simp [Kept, PaneScan.new], by simp [PaneScan.new]⟩
  obtain ⟨s, hscan, hready, hpending, hhold, hpublished, hsince⟩ := quiet_concludes hinv hquiet.1 hrepainted
  obtain ⟨hready', hanchored, hlooks⟩ := hready.conclude hpending
    (.inr ⟨rfl, fun x hx => le_trans (hinv.2 x (hsince ▸ hx)) hquiet.1.1⟩)
  obtain ⟨hgrid, hrun⟩ := quiet_run hquiet.2 (hscan ▸ hready') rfl (hscan ▸ hanchored)
  have hfinal : final = (view (w.step view first).grid).detection := congrArg (fun grid => (view grid).detection) hgrid
  rw [hfinal] at hidle ⊢
  have hs : Settled (view (w.step view first).grid).detection 4 s := by
    refine ⟨fun hrests => ?_, .inr (left_lt s)⟩
    simpa [PaneScan.Shows, hpublished] using
      hidle (by simpa [PaneScan.restsIdle, hhold, hpublished] using hrests)
  have hsettled := hrun 4 (hscan ▸ (hlooks.settled hs).1)
  rw [Nat.sub_eq_zero_of_le hcount] at hsettled
  exact hsettled.2.resolve_right (Nat.not_lt_zero _)

def working : Verdict := { detection := { state := .working, visibleWorking := true } }

def scanAt (now : Int) : Tick Int Unit := ⟨⟨true, false, 24, 80, some "claude", 0, now⟩, some ()⟩

/-- An agent appears, and past its startup nothing more comes. -/
theorem final_screen_read_working :
    let w := run (Watched.step fun _ => working) ⟨.new, ()⟩ [scanAt 0]
    (run (Watched.step fun _ => working) w (scanAt 30 :: [40, 41, 42, 43].map scanAt)).scan.Shows working.detection :=
  (final_screen_read (fun _ => working) () [scanAt 0] ([40, 41, 42, 43].map scanAt) (scanAt 30)
    (by decide) (by decide)) (by decide) (fun h => absurd h (by decide)) (by decide)

/-! ## §5 What is published -/

theorem gate_publishes (h : s.gate.1.publish = some v) : s.pending.suppression = none ∧ s.midFrame = false ∧
    s.cached = some v ∧ v.skipStateUpdate = false ∧ s.gate.2.lastPublished = some v := by
  unfold PaneScan.gate at h ⊢
  split at h
  · cases h
  · rename_i hsuppression
    split at h
    · cases h
    · rename_i hmid
      split at h
      · cases h
      · rename_i detection hcached
        split at h
        · cases h
        · rename_i hskip
          have hweigh : detection = v ∧ (s.weigh detection).2.lastPublished = some v := by
            unfold PaneScan.weigh at h ⊢
            dsimp only at h ⊢
            split at h
            · simp_all
            · cases h
          obtain ⟨rfl, hlast⟩ := hweigh
          simp_all

theorem conclude_publishes (h : s.conclude.1.publish = some v) : let s' := s.conclude.2
    s.pending.suppression = none ∧ s.cached = some v ∧ v.skipStateUpdate = false ∧ s'.lastPublished = some v ∧
      s'.agentSince = s.agentSince ∧ s'.awaitingRepaintAfterRebuild = s.awaitingRepaintAfterRebuild ∧
      s'.gridIsStale = s.gridIsStale ∧
      (s'.frameOpen = true → ∃ x ∈ s'.syncFrameOpenSince, 10 ≤ s.pending.now - x) := by
  obtain ⟨x, g, hopen, -, hanchored⟩ := anchor_frame s s.pending.now
  unfold PaneScan.conclude at h ⊢
  rw [hopen] at h ⊢
  obtain ⟨hsuppression, hmid, hcached, hskip, hlast⟩ := gate_publishes h
  obtain ⟨hold, p, at', hgate⟩ := gate_frame { s with syncFrameOpenSince := x, syncFrameAnchorGeneration := g }
  refine ⟨hsuppression, hcached, hskip, hlast, ?_⟩
  rw [hgate]
  refine ⟨rfl, rfl, rfl, fun hframe => ?_⟩
  obtain ⟨y, rfl⟩ := Option.isSome_iff_exists.mp (hanchored hframe)
  exact ⟨y, rfl, by simp_all [PaneScan.midFrame]⟩

theorem suppression_open (s : PaneScan τ) (input : ScanInput τ) {agentChanged seqUnchanged : Bool}
    (h : s.suppression input agentChanged seqUnchanged = none) :
    input.agent.isSome ∧ s.awaitingRepaintAfterRebuild = false ∧ ∀ x ∈ s.agentSince, 30 ≤ input.now - x := by
  unfold PaneScan.suppression at h
  split_ifs at h with hnone hgrace hidle hrepaint
  refine ⟨by simpa [Option.isSome_iff_ne_none] using hnone, by simpa using hrepaint, fun x hx => ?_⟩
  simpa [show s.agentSince = some x from hx] using hgrace

/-- A tick that publishes concludes a scan whose grid is up to date. -/
theorem tick_publishes (h : (w.tick view t).1.publish = some v) : ∃ s : PaneScan τ, s.conclude.1.publish = some v ∧
    (w.step view t).scan = s.conclude.2 ∧ s.gridIsStale = false ∧ s.pending = (w.scan.plan t.input).2.pending ∧
    s.agentSince = (w.scan.plan t.input).2.agentSince ∧
    s.awaitingRepaintAfterRebuild = (w.scan.plan t.input).2.awaitingRepaintAfterRebuild := by
  have hfresh : (w.scan.plan t.input).1.exchange = false → (w.scan.plan t.input).2.gridIsStale = false := by
    intro hskip
    have hfold : (!t.input.payloadEmpty || (w.scan.plan t.input).2.gridIsStale || _) = false :=
      (Bool.or_eq_false_iff.mp hskip).1
    simp only [Bool.or_eq_false_iff] at hfold
    exact hfold.1.2
  unfold Watched.step
  unfold Watched.tick Watched.exchange at h ⊢
  cases hexchange : (w.scan.plan t.input).1.exchange with
  | false =>
    simp only [hexchange, Bool.not_false, if_true] at h ⊢
    exact ⟨_, h, rfl, hfresh hexchange, rfl, rfl, rfl⟩
  | true =>
    cases hlands : t.lands with
    | none => simp [hexchange, hlands, PaneScan.finish, ScanOutput.quiet] at h
    | some grid =>
      simp only [hexchange, hlands, Bool.not_true, Bool.false_eq_true, if_false] at h ⊢
      exact ⟨_, h, rfl, rfl, rfl, rfl, rfl⟩

/-- What is published is read off a settled screen: the verdict of the grid after the
tick, up to date, of an agent past its startup, awaiting no repaint, and with no frame
open in it but one that is past its cap. -/
theorem publish_sound (view : γ → Verdict) (grid : γ) (before : List (Tick τ γ)) (t : Tick τ γ) (d : Detection)
    (h : ((run (Watched.step view) ⟨.new, grid⟩ before).tick view t).1.publish = some d) :
    let w' := (run (Watched.step view) ⟨.new, grid⟩ before).step view t
    d = (view w'.grid).detection ∧ d.skipStateUpdate = false ∧ w'.scan.lastPublished = some d ∧
      w'.scan.gridIsStale = false ∧ w'.scan.awaitingRepaintAfterRebuild = false ∧ t.input.agent.isSome ∧
      (∀ x ∈ w'.scan.agentSince, 30 ≤ t.input.now - x) ∧
      (w'.scan.frameOpen = true → ∃ x ∈ w'.scan.syncFrameOpenSince, 10 ≤ t.input.now - x) := by
  intro w'
  have hw : Kept view (run (Watched.step view) ⟨.new, grid⟩ before) :=
    run_invariant (Kept view) (fun _ t h => kept_step h t) (by simp [Kept, PaneScan.new]) before
  have hkept : Kept view w' := kept_step hw t
  obtain ⟨s, hpublish, hscan, hfresh, hpending, hagent, hawait⟩ := tick_publishes h
  obtain ⟨hsuppression, hcached, hskip, hlast, hsince, hawait', hstale, hframe⟩ := conclude_publishes hpublish
  rw [hpending] at hsuppression
  obtain ⟨hsome, hrepainted, hgrace⟩ := suppression_open
    ((run (Watched.step view) ⟨.new, grid⟩ before).scan.plan t.input).2 t.input hsuppression
  have hnow : s.pending.now = t.input.now := by rw [hpending]; rfl
  have hverdict : w'.scan.cached = some d := by rw [hscan, (conclude_frame s).1, hcached]
  refine ⟨hkept d hverdict, hskip, ?_, ?_, ?_, hsome, ?_, ?_⟩ <;> rw [hscan]
  · exact hlast
  · exact hstale.trans hfresh
  · exact hawait'.trans (hawait.trans hrepainted)
  · rw [hsince, hagent]
    exact hgrace
  · rw [← hnow]
    exact hframe

theorem publish_sound_working :
    let w := run (Watched.step fun _ => working) ⟨.new, ()⟩ [scanAt 0]
    (w.tick (fun _ => working) (scanAt 30)).1.publish = some working.detection ∧
      (w.step (fun _ => working) (scanAt 30)).scan.lastPublished = some working.detection := by
  intro w
  have hpublish : (w.tick (fun _ => working) (scanAt 30)).1.publish = some working.detection := by decide
  exact ⟨hpublish, (publish_sound (fun _ => working) () [scanAt 0] (scanAt 30) _ hpublish).2.2.1⟩

end SlopDesk.Agent.Scan
