/-
SlopDesk.Video.DecodeGate — drop-until-anchor decode admission
(`slopdesk-video/src/decode_admission.rs`).

The gate keeps the oldest and the newest loss of an episode, and decides as
one that keeps them all (`Losses`).
-/
import Mathlib.Data.Bool.AllAny
import SlopDesk.Base.Runs
import SlopDesk.Base.SequenceSpace

namespace SlopDesk.Video

open SlopDesk.Base

/-! ## §1 The gate -/

inductive GateMode where
  | opened
  | brokenChain
  | needKeyframe
  deriving DecidableEq

structure DecodeGate where
  mode : GateMode := .opened
  minLostFrameId : Option UInt32 := none
  maxLostFrameId : Option UInt32 := none

namespace DecodeGate

def noteLoss (g : DecodeGate) (frameId : UInt32) : DecodeGate where
  mode := if g.mode = .opened then .brokenChain else g.mode
  minLostFrameId := if g.minLostFrameId.all (distanceWrapped frameId · < 0) then some frameId else g.minLostFrameId
  maxLostFrameId := if g.maxLostFrameId.all (0 < distanceWrapped frameId ·) then some frameId else g.maxLostFrameId

/-- `note_hard_decode_failure`, and `note_awaiting_keyframe`. -/
def noteHardDecodeFailure (g : DecodeGate) : DecodeGate := { g with mode := .needKeyframe }

/-- Whether the frame is submitted. -/
def verdict (g : DecodeGate) (frameId : UInt32) (keyframe ackedAnchored : Bool) : Bool :=
  match g.mode with
  | .opened => true
  | .needKeyframe => keyframe
  | .brokenChain => keyframe || ackedAnchored || g.minLostFrameId.any (distanceWrapped frameId · < 0)

def noteDecodeSucceeded (g : DecodeGate) (frameId : UInt32) (keyframe : Bool) : DecodeGate :=
  if keyframe then
    if g.maxLostFrameId.any (distanceWrapped frameId · ≤ 0) then
      if g.mode = .needKeyframe then g else { g with mode := .brokenChain }
    else {}
  else if g.mode = .brokenChain ∧ g.maxLostFrameId.any (0 < distanceWrapped frameId ·) then {}
  else g

end DecodeGate

inductive GateOp where
  | loss (frameId : UInt32)
  | failure
  | decoded (frameId : UInt32) (keyframe : Bool)

def DecodeGate.step (g : DecodeGate) : GateOp → DecodeGate
  | .loss frameId => g.noteLoss frameId
  | .failure => g.noteHardDecodeFailure
  | .decoded frameId keyframe => g.noteDecodeSucceeded frameId keyframe

/-! ## §2 Episodes -/

/-- Everything lost since the stream was last whole, and whether the decoder has its session. -/
structure Losses where
  lost : List UInt32 := []
  session : Bool := true

/-- The frame and the losses span less than half of the id space. -/
def Near (lost : List UInt32) (frameId : UInt32) : Prop := ∃ base, ∀ x ∈ frameId :: lost, 0 ≤ distanceWrapped x base

namespace Losses

/-- What is newer than every loss makes the stream whole, unless the session is gone. -/
def step (l : Losses) : GateOp → Losses
  | .loss frameId => { l with lost := frameId :: l.lost }
  | .failure => { l with session := false }
  | .decoded frameId keyframe =>
    if (keyframe || l.session) && l.lost.all (0 < distanceWrapped frameId ·) then {} else l

def Within (l : Losses) : GateOp → Prop
  | .loss frameId | .decoded frameId _ => Near l.lost frameId
  | .failure => True

end Losses

/-- The loss that is kept decides as all of them do. -/
def Decides (p : Int → Bool) (lost : List UInt32) (kept : Option UInt32) : Prop :=
  (lost = [] ∨ kept.isSome) ∧
    ∀ x, Near lost x → kept.all (fun y => p (distanceWrapped x y)) = lost.all fun y => p (distanceWrapped x y)

/-- The gate of these losses. -/
structure DecodeGate.Keeps (g : DecodeGate) (l : Losses) : Prop where
  mode : g.mode = if !l.session then .needKeyframe else if l.lost = [] then .opened else .brokenChain
  oldest : Decides (· < 0) l.lost g.minLostFrameId
  newest : Decides (0 < ·) l.lost g.maxLostFrameId

variable {p : Int → Bool} {lost : List UInt32} {kept : Option UInt32} {x y : UInt32} {l : Losses} {g : DecodeGate}

theorem decides_nil : Decides p [] none := ⟨.inl rfl, fun _ _ => rfl⟩

theorem Near.tail (h : Near (x :: lost) y) : Near lost y := by
  obtain ⟨base, hbase⟩ := h
  exact ⟨base, fun z hz => hbase z (List.cons_subset_cons y (List.subset_cons_self x lost) hz)⟩

theorem Near.add (h : Near (x :: lost) y) {z : UInt32} (hz : z ∈ lost) :
    distanceWrapped y z = distanceWrapped y x + distanceWrapped x z := by
  obtain ⟨base, hbase⟩ := h
  have hx := hbase x (by simp)
  have hy := hbase y (by simp)
  have hz := hbase z (by simp [hz])
  have hx' := distanceWrapped_lt x base
  have hy' := distanceWrapped_lt y base
  have hz' := distanceWrapped_lt z base
  rw [distance_sub base (x := y) (y := z) (by omega) (by omega), distance_sub base (x := y) (y := x) (by omega) (by omega),
    distance_sub base (x := x) (y := z) (by omega) (by omega)]
  omega

/-- A loss takes the place of the one that is kept if that one decides so. -/
theorem Decides.loss (hadd : ∀ a b, p a → p b → p (a + b)) (hsub : ∀ a b, p (a + b) → ¬ p b → p a)
    (h : Decides p lost kept) (hx : Near lost x) :
    Decides p (x :: lost) (if kept.all (fun y => p (distanceWrapped x y)) then some x else kept) := by
  refine ⟨.inr ?_, fun y hy => ?_⟩
  · cases kept <;> simp [apply_ite]
  · have hkept := h.2 x hx
    have hother := h.2 y hy.tail
    rw [List.all_cons, Bool.eq_iff_iff, Bool.and_eq_true]
    split
    · rename_i hall
      rw [hkept, List.all_eq_true] at hall
      exact ⟨fun hp => ⟨hp, List.all_eq_true.mpr fun z hz => by rw [hy.add hz]; exact hadd _ _ hp (hall z hz)⟩, And.left⟩
    · rename_i hnot
      obtain ⟨z, hz, hnot⟩ : ∃ z ∈ lost, ¬ p (distanceWrapped x z) := by simpa [hkept] using hnot
      rw [hother]
      exact ⟨fun hp => ⟨hsub _ _ (hy.add hz ▸ List.all_eq_true.mp hp z hz) hnot, hp⟩, And.right⟩

theorem Decides.any (h : Decides p lost kept) (hne : lost ≠ []) (hx : Near lost x) :
    kept.any (fun y => p (distanceWrapped x y)) = lost.all fun y => p (distanceWrapped x y) := by
  obtain ⟨y, rfl⟩ := Option.isSome_iff_exists.mp (h.1.resolve_left hne)
  exact h.2 x hx

theorem DecodeGate.Keeps.decoded (h : g.Keeps l) (hx : Near l.lost x) (keyframe : Bool) :
    (g.noteDecodeSucceeded x keyframe).Keeps (l.step (.decoded x keyframe)) := by
  have hnew : Keeps {} {} := ⟨rfl, decides_nil, decides_nil⟩
  have hnewest : g.maxLostFrameId.all (0 < distanceWrapped x ·) = l.lost.all (0 < distanceWrapped x ·) := h.newest.2 x hx
  have hstale : g.maxLostFrameId.any (distanceWrapped x · ≤ 0) = !l.lost.all (0 < distanceWrapped x ·) := by
    rw [← hnewest]
    cases g.maxLostFrameId with
    | none => rfl
    | some y => simp only [Option.any_some, Option.all_some, ← decide_not, Int.not_lt]
  have hmode := h.mode
  unfold noteDecodeSucceeded Losses.step
  rw [hstale]
  dsimp only
  cases hall : l.lost.all (0 < distanceWrapped x ·) with
  | true =>
    by_cases hlost : l.lost = []
    · obtain ⟨lost, session⟩ := l
      obtain rfl : lost = [] := hlost
      cases keyframe <;> cases session <;> simp_all
    · have hany : g.maxLostFrameId.any (0 < distanceWrapped x ·) = true := (h.newest.any hlost hx).trans hall
      cases keyframe <;> cases hs : l.session <;> simp_all
  | false =>
    have hlost : l.lost ≠ [] := fun hnil => by simp [hnil] at hall
    have hany : g.maxLostFrameId.any (0 < distanceWrapped x ·) = false := (h.newest.any hlost hx).trans hall
    have hsame (hmode : g.mode ≠ .needKeyframe) : { g with mode := .brokenChain } = g := by
      obtain ⟨mode, _, _⟩ := g
      cases hs : l.session <;> simp_all
    cases keyframe <;> cases hs : l.session <;> simp_all

theorem DecodeGate.Keeps.step (h : g.Keeps l) {op : GateOp} (hop : l.Within op) : (g.step op).Keeps (l.step op) := by
  cases op with
  | loss frameId =>
    refine ⟨?_, h.oldest.loss ?_ ?_ hop, h.newest.loss ?_ ?_ hop⟩
    · have hmode := h.mode
      cases hs : l.session <;> by_cases hlost : l.lost = [] <;> simp_all [DecodeGate.step, noteLoss, Losses.step]
    all_goals
      simp only [decide_eq_true_eq]
      omega
  | failure => exact ⟨rfl, h.oldest, h.newest⟩
  | decoded frameId keyframe => exact h.decoded hop keyframe

theorem DecodeGate.Keeps.run {ops : List GateOp} (h : g.Keeps l) (hops : Meets Losses.step Losses.Within l ops) :
    (run DecodeGate.step g ops).Keeps (run Losses.step l ops) := by
  induction ops generalizing g l with
  | nil => exact h
  | cons op ops ih => exact ih (h.step hops.1) hops.2

/-- What a gate submits, whatever was lost, decoded and torn down before: keyframes and, as long as the
decoder has its session, what is anchored and what is older than every loss since the stream was last whole. -/
theorem gate_submits (ops : List GateOp) (frameId : UInt32) (keyframe ackedAnchored : Bool)
    (hops : Meets Losses.step Losses.Within {} ops) (hnear : Near (run Losses.step {} ops).lost frameId) :
    (run DecodeGate.step {} ops).verdict frameId keyframe ackedAnchored = true ↔
      keyframe = true ∨ (run Losses.step {} ops).session = true ∧
        (ackedAnchored = true ∨ ∀ x ∈ (run Losses.step {} ops).lost, distanceWrapped frameId x < 0) := by
  have h : (run DecodeGate.step {} ops).Keeps (run Losses.step {} ops) :=
    DecodeGate.Keeps.run ⟨rfl, decides_nil, decides_nil⟩ hops
  generalize run Losses.step {} ops = l at h hnear ⊢
  unfold DecodeGate.verdict
  rw [h.mode]
  by_cases hlost : l.lost = []
  · cases l.session <;> simp [hlost]
  · have holdest := h.oldest.any hlost hnear
    cases l.session <;> simp [hlost, holdest, or_assoc]

/-- Two losses, and a keyframe between them that is decoded late. -/
theorem gate_submits_stale : (run DecodeGate.step {} [.loss 3, .loss 5, .decoded 4 true]).verdict 2 false false = true :=
  have near (base : UInt32) {lost x} (h : (x :: lost).all (0 ≤ distanceWrapped · base)) : Near lost x :=
    ⟨base, List.all_iff_forall_prop.mp h⟩
  (gate_submits [.loss 3, .loss 5, .decoded 4 true] 2 false false ⟨near 0 rfl, near 0 rfl, near 0 rfl, trivial⟩
    (near 0 rfl)).mpr (.inr ⟨rfl, .inr (List.all_iff_forall_prop.mp rfl)⟩)

end SlopDesk.Video
