/-
SlopDesk.Sanitize.SyncFrameTheorems — what is left when repaints are dropped.

§1 is one frame: `scanFrame` finds what `splitFrame` and `dropsFrom` say of
it. §2 is the pass: it leaves out the frames that `kept` leaves out. §3
reads the stream that is left, which falls into the segments that were
kept, and counts the effects.
-/
import Mathlib.Data.List.Flatten
import SlopDesk.Sanitize.SyncFrame

namespace SlopDesk.Sanitize

variable {ts : List Token} {transition : SyncTransition}
variable (segs : List Segment)

/-! ## §1 One frame -/

theorem scanFrame_eq (keep : Bool) (ts : List Token) :
    scanFrame keep ts = ((raws (splitFrame ts).1).length, dropsFrom keep ts, (splitFrame ts).2) := by
  induction ts generalizing keep with
  | nil => rfl
  | cons t ts ih =>
    rw [scanFrame, splitFrame, dropsFrom]
    split
    · simp
    · simp [ih]

theorem dropsFrom_splitFrame (keep : Bool) (ts : List Token) :
    dropsFrom keep (splitFrame ts).1 = dropsFrom keep ts := by
  induction ts generalizing keep with
  | nil => rfl
  | cons t ts ih =>
    rw [splitFrame]
    split
    · simp [dropsFrom, ‹t.sync = _›]
    · simp [dropsFrom, ‹¬t.sync = _›, ih]

/-- A frame that can be dropped is closed: nothing behind it belongs to it. -/
theorem splitFrame_closed (ts : List Token) :
    (splitFrame ts).2 = [] ∨ ∀ rest, splitFrame ((splitFrame ts).1 ++ rest) = ((splitFrame ts).1, rest) := by
  induction ts with
  | nil => exact .inl rfl
  | cons t ts ih =>
    rw [splitFrame]
    split
    · exact .inr fun rest => by simp [splitFrame, ‹t.sync = _›]
    · refine ih.imp_right fun ih rest => ?_
      rw [List.cons_append, splitFrame, if_neg ‹¬t.sync = _›, ih]

theorem splitFrame_open (h : (splitFrame ts).2 = []) :
    splitFrame (splitFrame ts).1 = ((splitFrame ts).1, []) := by
  have := splitFrame_append ts
  rw [h, List.append_nil] at this
  rw [this, ← h]
  exact Prod.ext this rfl

theorem piggybacks_of_mustKeep {c : Csi} (hsync : syncTransition c = some transition)
    (h : mustKeep c = true) : piggybacks c = true := by
  by_contra hplain
  simp only [piggybacks, decide_eq_true_eq, not_not] at hplain
  simp only [syncTransition] at hsync
  split_ifs at hsync with hform _ hfinal
  all_goals
    simp only [not_or, not_not, not_and] at hform
    have hh : c.finalByte = 0x68 ∨ c.finalByte = 0x6C := by
      by_cases hl : c.finalByte = 0x68
      · exact .inl hl
      · exact .inr (hform.2.1 hl)
    rcases hh with hh | hh <;> simp [mustKeep, hform.1, hh, hplain, isAltMode, syncMode] at h

theorem not_matters_of_sync {t : Token} (hsync : t.sync = some transition)
    (hplain : t.piggybacks = false) : t.matters = false := by
  cases t with
  | csi c =>
    have hkeeps : mustKeep c = false := by
      by_contra h
      simp [Token.piggybacks, piggybacks_of_mustKeep hsync (by simpa using h)] at hplain
    simp only [Token.piggybacks] at hplain
    simp [Token.matters, hkeeps, hplain]
  | byte b => cases hsync
  | string belTerminates bytes => cases hsync
  | pair introducer => cases hsync
  | cut rest => cases hsync

theorem dropsFrom_true (ts : List Token) : dropsFrom true ts = false := by
  induction ts with
  | nil => rfl
  | cons t ts ih => simp [dropsFrom, ih]

/-- In a frame that can be dropped, what matters is hidden. -/
theorem matters_of_dropsFrom {keep : Bool} (h : dropsFrom keep ts = true) :
    (splitFrame ts).1.any Token.matters = (splitFrame ts).1.any Token.hides := by
  induction ts generalizing keep with
  | nil => rfl
  | cons t ts ih =>
    rw [dropsFrom] at h
    rw [splitFrame]
    split at h
    · rename_i hsync
      simp only [Bool.not_eq_true', Bool.or_eq_false_iff] at h
      simp [hsync, not_matters_of_sync hsync h.2, Token.hides]
    · rename_i hsync
      cases hkeeps : t.keeps with
      | false =>
        rw [if_neg hsync, List.any_cons, List.any_cons, ih h]
        simp [Token.hides, hkeeps, hsync]
      | true =>
        rw [hkeeps, Bool.or_true, dropsFrom_true] at h
        cases h

/-! ## §2 The pass -/

/-- The segments that are kept. -/
def kept : List Segment → List Segment
  | [] => []
  | .outside t :: segs => .outside t :: kept segs
  | .frame opener body :: segs =>
    if droppable opener body ∧ segs.any Segment.isFrame then kept segs else .frame opener body :: kept segs

@[simp] theorem isFrame_outside (t : Token) : (Segment.outside t).isFrame = false := rfl

@[simp] theorem isFrame_frame (opener : Token) (body : List Token) : (Segment.frame opener body).isFrame = true := rfl

/-- The tokens of segments. -/
def joined (segs : List Segment) : List Token := segs.flatMap Segment.tokens

@[simp] theorem joined_nil : joined [] = [] := rfl

@[simp] theorem joined_cons (seg : Segment) (segs : List Segment) :
    joined (seg :: segs) = seg.tokens ++ joined segs := rfl

theorem joined_segments (ts : List Token) : joined (segments ts) = ts := by
  fun_induction segments ts with
  | case1 => rfl
  | case2 t ts hsync ih => simp [Segment.tokens, ih, splitFrame_append]
  | case3 t ts hsync ih => simp [Segment.tokens, ih]

theorem framesFrom_eq_nil (i : Nat) (ts : List Token) :
    framesFrom i ts = [] ↔ (segments ts).any Segment.isFrame = false := by
  fun_induction framesFrom i ts with
  | case1 => simp [segments]
  | case2 i t ts hsync scanned stop ih => simp [segments, hsync, Segment.isFrame]
  | case3 i t ts hsync ih => simp [segments, hsync, Segment.isFrame, ih]

theorem kept_of_none {i : Nat} (h : (framesFrom i ts).any (·.droppable) = false) :
    kept (segments ts) = segments ts := by
  fun_induction framesFrom i ts with
  | case1 => simp [segments, kept]
  | case2 i t ts hsync scanned stop ih =>
    simp only [List.any_cons, Bool.or_eq_false_iff] at h
    have hscanned : scanned = _ := scanFrame_eq t.piggybacks ts
    simp only [hscanned] at h ih
    rw [segments, if_pos hsync, kept, if_neg (by simp [droppable, dropsFrom_splitFrame, h.1]), ih h.2]
  | case3 i t ts hsync ih => rw [segments, if_neg hsync, kept, ih h]

theorem slice_front (front behind : List UInt8) (cursor : Nat) :
    slice (front ++ behind) cursor front.length = front.drop cursor := by
  rw [slice, List.take_left]

/-- The byte pass puts out what is kept. -/
theorem keptFrom_framesFrom (ts : List Token) : ∀ (front : List UInt8) (cursor : Nat), cursor ≤ front.length →
    keptFrom (front ++ raws ts) cursor (framesFrom front.length ts) =
      front.drop cursor ++ raws (joined (kept (segments ts))) := by
  fun_induction segments ts with
  | case1 =>
    intro front cursor _
    simp [framesFrom, keptFrom, kept]
  | case2 t ts hsync ih =>
    intro front cursor hcursor
    have hscanned := scanFrame_eq t.piggybacks ts
    have hbytes : front ++ raws (t :: ts) =
        (front ++ (t.raw ++ raws (splitFrame ts).1)) ++ raws (splitFrame ts).2 := by
      conv => lhs; rw [← splitFrame_append ts]
      simp
    have hstop : front.length + t.raw.length + (raws (splitFrame ts).1).length =
        (front ++ (t.raw ++ raws (splitFrame ts).1)).length := by
      simp
      omega
    rw [framesFrom, if_pos hsync]
    simp only [hscanned]
    have hbefore : slice (front ++ raws (t :: ts)) cursor front.length = front.drop cursor := slice_front ..
    have hframe : slice (front ++ raws (t :: ts)) front.length (front ++ (t.raw ++ raws (splitFrame ts).1)).length =
        t.raw ++ raws (splitFrame ts).1 := by
      rw [hbytes, slice_front, List.drop_left]
    have hbehind := ih (front ++ (t.raw ++ raws (splitFrame ts).1)) _ (Nat.le_refl _)
    rw [List.drop_length, List.nil_append, ← hbytes] at hbehind
    rw [hstop, keptFrom, hbehind, hbefore, hframe, kept]
    have hdropped : (!dropsFrom t.piggybacks ts ∨
        framesFrom (front ++ (t.raw ++ raws (splitFrame ts).1)).length (splitFrame ts).2 = []) ↔
        ¬(droppable t (splitFrame ts).1 ∧ (segments (splitFrame ts).2).any Segment.isFrame) := by
      rw [framesFrom_eq_nil, droppable, dropsFrom_splitFrame]
      cases dropsFrom t.piggybacks ts <;> simp
    by_cases hdrop : droppable t (splitFrame ts).1 ∧ (segments (splitFrame ts).2).any Segment.isFrame
    · rw [if_neg fun h => hdropped.mp h hdrop, if_pos hdrop, List.append_nil]
    · rw [if_pos (hdropped.mpr hdrop), if_neg hdrop]
      simp [Segment.tokens]
  | case3 t ts hsync ih =>
    intro front cursor hcursor
    have := ih (front ++ t.raw) cursor (by simp; omega)
    rw [framesFrom, if_neg hsync, ← List.length_append, raws_cons, ← List.append_assoc, this, kept,
      List.drop_append_of_le_length hcursor]
    simp [Segment.tokens]

/-- What `collapse` leaves. -/
theorem collapse_eq (bytes : List UInt8) : collapse bytes = raws (joined (kept (segments (tokens bytes)))) := by
  cases hany : (framesFrom 0 (tokens bytes)).any (·.droppable) with
  | true =>
    have := keptFrom_framesFrom (tokens bytes) [] 0 (Nat.le_refl _)
    rw [List.nil_append, (fit_tokens bytes).1] at this
    simpa [collapse, hany] using this
  | false => simp [collapse, hany, kept_of_none hany, joined_segments, (fit_tokens bytes).1]

/-! ## §3 What is left -/

theorem raw_of_sync {t : Token} (h : t.sync = some transition) :
    ∃ others, t.raw = esc :: others := by
  cases t with
  | csi c => exact ⟨_, rfl⟩
  | byte b => cases h
  | string belTerminates bytes => cases h
  | pair introducer => cases h
  | cut rest => cases h

/-- The tokens that are kept fit one behind another. -/
theorem fit_kept (h : Fit ts) :
    Fit (joined (kept (segments ts))) ∧ Replaces (raws ts) (raws (joined (kept (segments ts)))) := by
  fun_induction segments ts with
  | case1 => exact ⟨trivial, fun _ => rfl, fun _ _ h => h⟩
  | case2 t ts hsync ih =>
    have hsplit : t :: ts = (t :: (splitFrame ts).1) ++ (splitFrame ts).2 := by simp [splitFrame_append]
    rw [hsplit] at h ⊢
    obtain ⟨hfit, hreplaces⟩ := ih (fit_drop h)
    rw [kept]
    split
    · obtain ⟨others, hraw⟩ := raw_of_sync hsync
      refine ⟨hfit, ?_⟩
      rw [List.cons_append, raws_cons, hraw]
      exact .of_esc _ _
    · exact fit_append h hfit hreplaces
  | case3 t ts hsync ih =>
    obtain ⟨hfit, hreplaces⟩ := ih h.2
    exact @fit_append [t] _ _ h hfit hreplaces

/-- What is left falls into the segments that were kept. -/
theorem segments_kept (ts : List Token) : segments (joined (kept (segments ts))) = kept (segments ts) := by
  fun_induction segments ts with
  | case1 => simp [kept, segments]
  | case2 t ts hsync ih =>
    rw [kept]
    split
    · exact ih
    · have hsplit : splitFrame ((splitFrame ts).1 ++ joined (kept (segments (splitFrame ts).2))) =
          ((splitFrame ts).1, joined (kept (segments (splitFrame ts).2))) := by
        rcases splitFrame_closed ts with hopen | hclosed
        · simpa [hopen, segments, kept] using splitFrame_open hopen
        · exact hclosed _
      rw [joined_cons, Segment.tokens, List.cons_append, segments, if_pos hsync, hsplit, ih]
  | case3 t ts hsync ih =>
    rw [kept, joined_cons, Segment.tokens, List.singleton_append, segments, if_neg hsync, ih]

theorem any_kept : (kept segs).any Segment.isFrame = segs.any Segment.isFrame := by
  induction segs with
  | nil => rfl
  | cons seg segs ih =>
    cases seg with
    | outside t => simp [kept, ih]
    | frame opener body =>
      rw [kept]
      split
      · rename_i hdrop
        rw [ih, hdrop.2, List.any_cons, hdrop.2, Bool.or_true]
      · simp

theorem kept_kept : kept (kept segs) = kept segs := by
  induction segs with
  | nil => rfl
  | cons seg segs ih =>
    cases seg with
    | outside t => simp [kept, ih]
    | frame opener body =>
      rw [kept]
      split
      · exact ih
      · rw [kept, any_kept, if_neg ‹_›, ih]

/-- The last frame of segments. -/
def lastFrame (segs : List Segment) : Option Segment := (segs.filter Segment.isFrame).getLast?

/-- Every token outside the frames is kept, and the last frame is. -/
theorem kept_spec : (kept segs).Sublist segs ∧ (kept segs).filter (!·.isFrame) = segs.filter (!·.isFrame) ∧
      lastFrame (kept segs) = lastFrame segs := by
  induction segs with
  | nil => exact ⟨.slnil, rfl, rfl⟩
  | cons seg segs ih =>
    obtain ⟨hsub, houtside, hlast⟩ := ih
    simp only [lastFrame] at hlast ⊢
    cases seg with
    | outside t => exact ⟨hsub.cons_cons _, by simp [kept, houtside], by simp [kept, hlast]⟩
    | frame opener body =>
      rw [kept]
      split
      · rename_i hdrop
        refine ⟨hsub.cons _, by simp [houtside], ?_⟩
        have hne : segs.filter Segment.isFrame ≠ [] := by simpa using hdrop.2
        rw [hlast, List.filter_cons_of_pos rfl, List.getLast?_cons, List.getLast?_eq_some_getLast hne, Option.getD_some]
      · refine ⟨hsub.cons_cons _, by simp [houtside], ?_⟩
        rw [List.filter_cons_of_pos rfl, List.filter_cons_of_pos rfl, List.getLast?_cons, List.getLast?_cons, hlast]

/-- Every effect is left unless a dropped frame hides one. -/
theorem effects_kept (ts : List Token) :
    (joined (kept (segments ts))).filter Token.matters = ts.filter Token.matters ↔ ¬ Hidden (segments ts) := by
  fun_induction segments ts with
  | case1 => simp [kept, Hidden]
  | case2 t ts hsync ih =>
    have hsplit : (t :: ts).filter Token.matters = (t :: (splitFrame ts).1).filter Token.matters ++
        (splitFrame ts).2.filter Token.matters := by
      rw [← List.filter_append, List.cons_append, splitFrame_append]
    rw [hsplit, kept, Hidden]
    by_cases hdrop : droppable t (splitFrame ts).1 ∧ (segments (splitFrame ts).2).any Segment.isFrame
    · rw [if_pos hdrop]
      have hdrops := hdrop.1
      rw [droppable, dropsFrom_splitFrame] at hdrops
      have hplain : t.piggybacks = false := by
        cases hpiggybacks : t.piggybacks with
        | false => rfl
        | true => simp [hpiggybacks, dropsFrom_true] at hdrops
      have hsub : ((joined (kept (segments (splitFrame ts).2))).filter Token.matters).length ≤
          ((splitFrame ts).2.filter Token.matters).length := by
        have hsub : (joined (kept (segments (splitFrame ts).2))).Sublist (joined (segments (splitFrame ts).2)) :=
          (kept_spec _).1.flatMap _
        rw [joined_segments] at hsub
        exact (hsub.filter _).length_le
      have hbody : (splitFrame ts).1.filter Token.matters = [] ↔ ¬ (splitFrame ts).1.any Token.hides := by
        rw [← matters_of_dropsFrom hdrops]
        simp
      rw [List.filter_cons_of_neg (by simp [not_matters_of_sync hsync hplain])]
      have hall : (joined (kept (segments (splitFrame ts).2))).filter Token.matters =
          (splitFrame ts).1.filter Token.matters ++ (splitFrame ts).2.filter Token.matters ↔
          (splitFrame ts).1.filter Token.matters = [] ∧
            (joined (kept (segments (splitFrame ts).2))).filter Token.matters =
              (splitFrame ts).2.filter Token.matters := by
        constructor
        · intro h
          have hnil : (splitFrame ts).1.filter Token.matters = [] := by
            rw [h, List.length_append] at hsub
            exact List.length_eq_zero_iff.mp (by omega)
          exact ⟨hnil, by rw [h, hnil, List.nil_append]⟩
        · rintro ⟨hnil, h⟩
          rw [hnil, h, List.nil_append]
      rw [hall, hbody, ih]
      tauto
    · rw [if_neg hdrop, joined_cons, List.filter_append, Segment.tokens, List.append_cancel_left_eq, ih]
      tauto
  | case3 t ts hsync ih =>
    rw [kept, joined_cons, List.filter_append, Hidden, ← ih, Segment.tokens]
    by_cases hmatters : t.matters <;> simp [hmatters]

/-- The pass keeps what is outside the frames and the last frame, loses no
effect and is settled after one run, just when no frame that it drops hides
one. -/
theorem repaints_dropped (bytes : List UInt8) :
    ((∃ left : List Segment, left.Sublist (segments (tokens bytes)) ∧
        left.filter (!·.isFrame) = (segments (tokens bytes)).filter (!·.isFrame) ∧
        lastFrame left = lastFrame (segments (tokens bytes)) ∧ collapse bytes = raws (joined left)) ∧
      effects (collapse bytes) = effects bytes ∧ collapse (collapse bytes) = collapse bytes) ↔
      ¬ Hidden (segments (tokens bytes)) := by
  have hleft := tokens_raws (fit_kept (fit_tokens bytes).2).1
  rw [← collapse_eq] at hleft
  have heffects : effects (collapse bytes) = effects bytes ↔ ¬ Hidden (segments (tokens bytes)) := by
    rw [effects, effects, hleft, effects_kept]
  constructor
  · rintro ⟨-, h, -⟩
    exact heffects.mp h
  · intro h
    obtain ⟨hsub, houtside, hlast⟩ := kept_spec (segments (tokens bytes))
    refine ⟨⟨_, hsub, houtside, hlast, collapse_eq bytes⟩, heffects.mpr h, ?_⟩
    rw [collapse_eq (collapse bytes), hleft, segments_kept, kept_kept, ← collapse_eq]

/-- A frame with a line feed right behind an `ESC` is dropped, and the line
feed with it. -/
theorem lineFeed_dropped :
    let opener := [0x1B, 0x5B, 0x3F, 0x32, 0x30, 0x32, 0x36, 0x68]
    let closer := [0x1B, 0x5B, 0x3F, 0x32, 0x30, 0x32, 0x36, 0x6C]
    let stream := opener ++ [0x1B, 0x0A] ++ closer ++ (opener ++ closer)
    collapse stream = opener ++ closer ∧ effects stream = [.pair 0x0A] ∧ effects (collapse stream) = [] := by
  decide +kernel

end SlopDesk.Sanitize
