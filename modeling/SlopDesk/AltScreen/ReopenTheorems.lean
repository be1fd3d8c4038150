/-
SlopDesk.AltScreen.ReopenTheorems — the re-opener of a clean cut puts a
terminal where the dropped bytes would have put it.

§1 one sequence: where the skimmer says it ends is where the terminal is
back in the ground state, up to a byte that aborts a string body, which the
scan takes for text. §2 the scan, by induction on its rounds: at the start
of each the terminal that has read everything before is in the ground
state. §3 what a cut may do and what the repair makes of it.
-/
import SlopDesk.AltScreen.Reopen

namespace SlopDesk.AltScreen

open SlopDesk.Sanitize
open Screen

variable {b : UInt8} {q rest bytes : List UInt8} {alt belEnds : Bool} {boundary index : Nat}
variable {j stop : Nat} {dropped keptHead : List UInt8}

/-! ## §1 One sequence -/

theorem finish_cons_some {s : Screen} (h : s.mode ≠ .ground) (hfin : s.finish (b :: rest) = some q) :
    ∃ q', q = b :: q' ∧ (s.step b).finish rest = some q' := by
  rw [finish_cons h] at hfin
  obtain ⟨q', hq', rfl⟩ := Option.map_eq_some_iff.mp hfin
  exact ⟨q', rfl, hq'⟩

theorem isParam_of_isFinal (h : isFinal b = true) : isParam b = false := by
  simp only [isFinal, isParam, Bool.and_eq_true, decide_eq_true_eq, Bool.and_eq_false_iff,
    decide_eq_false_iff_not, UInt8.le_iff_toNat_le, UInt8.reduceToNat] at h ⊢
  omega

theorem csiIntermediate_sequence (hfin : (Screen.mk .csiIntermediate alt).finish bytes = some q)
    (hregular : (Screen.mk .csiIntermediate alt).Regular q) :
    ∃ final, bytes[(bytes.takeWhile isIntermediate).length]? = some final ∧ isFinal final ∧
      q.length = (bytes.takeWhile isIntermediate).length + 1 ∧
      (Screen.mk .csiIntermediate alt).read q = ⟨.ground, alt⟩ := by
  induction bytes generalizing q with
  | nil => simp [finish] at hfin
  | cons b bytes ih =>
    obtain ⟨q, rfl, hrest⟩ := finish_cons_some (by simp) hfin
    obtain ⟨hb, hregular⟩ := regular_cons.mp hregular
    by_cases hinter : isIntermediate b = true
    case pos =>
      have hstep : (Screen.mk .csiIntermediate alt).step b = ⟨.csiIntermediate, alt⟩ := by
        simp [step, hinter]
      rw [hstep] at hrest hregular
      obtain ⟨final, hget, hfinal, hlen, hread⟩ := ih hrest hregular
      refine ⟨final, ?_, hfinal, ?_, ?_⟩
      · simpa [hinter] using hget
      · simp [hinter, hlen]
      · rw [read_cons, hstep, hread]
    case neg =>
      have hfinal : isFinal b = true := by simpa [ByteRegular, hinter] using hb
      have hparam := isParam_of_isFinal hfinal
      have hstep : (Screen.mk .csiIntermediate alt).step b = ⟨.ground, alt⟩ := by
        simp [step, hinter, hparam, hfinal]
      rw [hstep, finish_ground rfl] at hrest
      cases hrest
      refine ⟨b, ?_, hfinal, ?_, ?_⟩
      · simp [hinter]
      · simp [hinter]
      · rw [read_cons, hstep]; rfl

theorem csi_sequence {params : List UInt8} (hfin : (Screen.mk (.csi params) alt).finish bytes = some q)
    (hregular : (Screen.mk (.csi params) alt).Regular q) :
    let ps := bytes.takeWhile isParam
    let is := (bytes.drop ps.length).takeWhile isIntermediate
    ∃ final, bytes[ps.length + is.length]? = some final ∧ isFinal final ∧
      q.length = ps.length + is.length + 1 ∧
      (Screen.mk (.csi params) alt).read q
        = ⟨.ground, if is = [] then switched (params ++ ps) final alt else alt⟩ := by
  induction bytes generalizing params q with
  | nil => simp [finish] at hfin
  | cons b bytes ih =>
    obtain ⟨q, rfl, hrest⟩ := finish_cons_some (by simp) hfin
    obtain ⟨hb, hregular⟩ := regular_cons.mp hregular
    by_cases hparam : isParam b = true
    case pos =>
      have hstep : (Screen.mk (.csi params) alt).step b = ⟨.csi (params ++ [b]), alt⟩ := by
        simp [step, hparam]
      rw [hstep] at hrest hregular
      obtain ⟨final, hget, hfinal, hlen, hread⟩ := ih hrest hregular
      simp only [List.takeWhile_cons, hparam, if_true, List.length_cons, List.drop_succ_cons]
      refine ⟨final, ?_, hfinal, ?_, ?_⟩
      · rw [Nat.add_right_comm]
        simpa using hget
      · omega
      · rw [read_cons, hstep, hread]
        simp
    case neg =>
      simp only [List.takeWhile_cons, hparam]
      by_cases hinter : isIntermediate b = true
      case pos =>
        have hstep : (Screen.mk (.csi params) alt).step b = ⟨.csiIntermediate, alt⟩ := by
          simp [step, hparam, hinter]
        rw [hstep] at hrest hregular
        obtain ⟨final, hget, hfinal, hlen, hread⟩ := csiIntermediate_sequence hrest hregular
        refine ⟨final, ?_, hfinal, ?_, ?_⟩
        · simpa [hinter] using hget
        · simp [hinter, hlen]
        · rw [read_cons, hstep, hread]
          simp [hinter]
      case neg =>
        have hfinal : isFinal b = true := by simpa [ByteRegular, hparam, hinter] using hb
        have hstep : (Screen.mk (.csi params) alt).step b = ⟨.ground, switched params b alt⟩ := by
          simp [step, hparam, hinter, hfinal]
        rw [hstep, finish_ground rfl] at hrest
        cases hrest
        refine ⟨b, ?_, hfinal, ?_, ?_⟩
        · simp [hinter]
        · simp [hinter]
        · rw [read_cons, hstep]
          simp [hinter]

theorem namesAltMode_marker (rest : List UInt8) : namesAltMode (0x3F :: rest)
    = ((splitFields rest).filterMap parseU32).any fun mode => altModes.contains mode := rfl

theorem namesAltMode_of_ne {marker : UInt8} (h : marker ≠ 0x3F) (rest : List UInt8) :
    namesAltMode (marker :: rest) = false := by
  unfold namesAltMode
  split
  case h_1 heq =>
    cases heq
    exact absurd rfl h
  case h_2 => rfl

theorem altTransitionParam_cases (params intermediates : List UInt8) (final : UInt8)
    (stop : Nat) (alt : Bool) :
    (∃ mode ∈ altModes, altTransitionParam ⟨params, intermediates, final, stop⟩ = some mode ∧
      (if intermediates = [] then switched params final alt else alt) = decide (final = 0x68)) ∨
    (altTransitionParam ⟨params, intermediates, final, stop⟩ = none ∧
      (if intermediates = [] then switched params final alt else alt) = alt) := by
  unfold altTransitionParam
  by_cases hfinal : final = 0x68 ∨ final = 0x6C
  case neg =>
    have hneither := not_or.mp hfinal
    rw [if_pos hneither]
    exact .inr ⟨rfl, by simp [switched, hneither]⟩
  case pos =>
    rw [if_neg fun hneither => hfinal.elim hneither.1 hneither.2]
    by_cases hinter : intermediates = []
    case neg => exact .inr ⟨by simp [hinter], by simp [hinter]⟩
    case pos =>
      rw [if_neg (by simp [hinter]), if_pos hinter]
      unfold switched
      cases params with
      | nil => exact .inr ⟨rfl, by simp [namesAltMode]⟩
      | cons marker rest =>
        by_cases hmarker : marker = 0x3F
        case neg => exact .inr ⟨by simp [hmarker], by simp [namesAltMode_of_ne hmarker]⟩
        case pos =>
          subst hmarker
          dsimp only
          rw [if_neg (by simp), namesAltMode_marker]
          cases hfind : ((splitFields rest).filterMap parseU32).find? fun mode =>
              altModes.contains mode with
          | none =>
            grind
          | some mode =>
            have hmode : altModes.contains mode = true := List.find?_some hfind
            have hany : ((splitFields rest).filterMap parseU32).any
                (fun mode => altModes.contains mode) = true :=
              List.any_eq_true.mpr ⟨mode, List.mem_of_find?_eq_some hfind, hmode⟩
            refine .inl ⟨mode, List.contains_iff_mem.mp hmode, rfl, ?_⟩
            rw [hany, if_pos ⟨hfinal, rfl⟩]

theorem finish_stringEscape
    (h : bytes.head? ≠ some 0x5C) : (Screen.mk (.stringEscape belEnds) alt).finish bytes
      = (Screen.mk (.string belEnds) alt).finish bytes := by
  cases bytes with
  | nil => simp [finish]
  | cons b bytes =>
    have hb : b ≠ 0x5C := by simpa using h
    rw [finish_cons (by simp), finish_cons (by simp)]
    simp [step, hb, stringByte]

theorem read_stringEscape
    (h : bytes.head? ≠ some 0x5C) (hfin : (Screen.mk (.string belEnds) alt).finish bytes = some q) :
    (Screen.mk (.stringEscape belEnds) alt).read q = (Screen.mk (.string belEnds) alt).read q := by
  cases bytes with
  | nil => simp [finish] at hfin
  | cons b bytes =>
    have hb : b ≠ 0x5C := by simpa using h
    obtain ⟨q, rfl, _⟩ := finish_cons_some (by simp) hfin
    simp [step, hb, stringByte]

/-- A sequence that `q` finishes ends at `stop` for the skimmer: behind it,
or in front of the byte that aborts it. -/
def EndsAt (j : Nat) (q : List UInt8) (stop : Nat) : Prop :=
  ∃ done left, q = done ++ left ∧ esc ∉ left ∧ left.length ≤ 1 ∧ stop = j + done.length

theorem EndsAt.all (h : stop = j + q.length) : EndsAt j q stop :=
  ⟨q, [], by simp, by simp, by simp, h⟩

theorem EndsAt.cons (h : EndsAt (j + 1) q stop) (b : UInt8) : EndsAt j (b :: q) stop := by
  obtain ⟨done, left, rfl, htext, hleft, hstop⟩ := h
  refine ⟨b :: done, left, rfl, htext, hleft, ?_⟩
  simp only [List.length_cons]
  omega

theorem replay_eq (belEnds : Bool) : Terminators.replay belEnds = ⟨belEnds, false, false⟩ := by
  cases belEnds <;> rfl

/-- A string body: the skimmer ends it where the terminal does, or on the
byte that aborts it. -/
theorem string_sequence (j : Nat) (hfin : (Screen.mk (.string belEnds) alt).finish bytes = some q) :
    (Screen.mk (.string belEnds) alt).read q = ⟨.ground, alt⟩ ∧
    ∃ bodyEnd stop, stringEndFrom (.replay belEnds) j bytes = some ⟨bodyEnd, stop⟩ ∧
      EndsAt j q stop := by
  induction bytes generalizing q j with
  | nil => simp [finish] at hfin
  | cons b bytes ih =>
    obtain ⟨q, rfl, hrest⟩ := finish_cons_some (by simp) hfin
    rw [stringEndFrom, read_cons]
    by_cases habort : b = can ∨ b = sub
    case pos =>
      have hstep : (Screen.mk (.string belEnds) alt).step b = ⟨.ground, alt⟩ := by
        simp [step, stringByte, ← or_assoc, habort]
      rw [hstep, finish_ground rfl] at hrest
      cases hrest
      rw [hstep, if_pos habort]
      have hne : b ≠ esc := by rcases habort with rfl | rfl <;> decide
      exact ⟨rfl, j, j, rfl, [], [b], rfl, by simpa using hne.symm, by simp, rfl⟩
    case neg =>
      rw [if_neg habort]
      obtain ⟨hcan, hsub⟩ := not_or.mp habort
      by_cases hbel : belEnds ∧ b = bel
      case pos =>
        have hstep : (Screen.mk (.string belEnds) alt).step b = ⟨.ground, alt⟩ := by
          simp [step, stringByte, hbel]
        rw [hstep, finish_ground rfl] at hrest
        cases hrest
        rw [hstep, if_pos (by simp [replay_eq, hbel])]
        exact ⟨rfl, j, j + 1, rfl, .all rfl⟩
      case neg =>
        rw [if_neg (by simpa [replay_eq] using hbel)]
        by_cases hesc : b = esc
        case neg =>
          have hstep : (Screen.mk (.string belEnds) alt).step b = ⟨.string belEnds, alt⟩ := by
            simp [step, stringByte, hcan, hsub, hesc, hbel]
          rw [hstep] at hrest
          obtain ⟨hread, bodyEnd, stop, heq, hstop⟩ := ih (j + 1) hrest
          rw [hstep, if_neg hesc]
          exact ⟨hread, bodyEnd, stop, heq, hstop.cons b⟩
        case pos =>
          have hstep : (Screen.mk (.string belEnds) alt).step b = ⟨.stringEscape belEnds, alt⟩ := by
            rw [hesc]
            cases belEnds <;> rfl
          rw [hstep] at hrest
          rw [hstep, if_pos hesc]
          by_cases hback : bytes.head? = some 0x5C
          case pos =>
            obtain ⟨rest, rfl⟩ := List.head?_eq_some_iff.mp hback
            obtain ⟨q, rfl, hend⟩ := finish_cons_some (by simp) hrest
            have hground : (Screen.mk (.stringEscape belEnds) alt).step 0x5C = ⟨.ground, alt⟩ := by
              simp [step]
            rw [hground, finish_ground rfl] at hend
            cases hend
            exact ⟨rfl, j, j + 2, rfl, .all rfl⟩
          case neg =>
            rw [finish_stringEscape hback] at hrest
            obtain ⟨hread, bodyEnd, stop, heq, hstop⟩ := ih (j + 1) hrest
            rw [if_neg hback, if_neg (by simp [replay_eq]), read_stringEscape hback hrest]
            exact ⟨hread, bodyEnd, stop, heq, hstop.cons b⟩

/-! ## §2 The scan -/

theorem scan_done (h : boundary ≤ index) (bytes : List UInt8) (fuel : Nat) (inAlt : Bool) (enterMode : Nat) :
    scan bytes boundary fuel index inAlt enterMode = (inAlt, enterMode) := by
  cases fuel with
  | zero => rfl
  | succ fuel => rw [scan, if_neg (by omega)]

theorem getElem?_of_drop (h : bytes.drop index = rest) (k : Nat) : bytes[index + k]? = rest[k]? := by
  rw [← h, List.getElem?_drop]

theorem scan_text (hindex : index < boundary) (hbytes : bytes.drop index = b :: rest) (hb : b ≠ esc)
    (fuel : Nat) (inAlt : Bool) (enterMode : Nat) : scan bytes boundary (fuel + 1) index inAlt enterMode
      = scan bytes boundary fuel (index + 1) inAlt enterMode := by
  have hget : bytes[index]? = some b := getElem?_of_drop hbytes 0
  rw [scan, if_pos hindex, if_pos (.inl (by rw [hget]; simpa using hb))]

theorem parseCsi_eq {final : UInt8} (hdrop : bytes.drop (index + 2) = rest)
    (hget : rest[(rest.takeWhile isParam).length
      + ((rest.drop (rest.takeWhile isParam).length).takeWhile isIntermediate).length]?
        = some final) (hfinal : isFinal final = true) :
    parseCsi bytes index = some {
      params := rest.takeWhile isParam
      intermediates := (rest.drop (rest.takeWhile isParam).length).takeWhile isIntermediate
      finalByte := final
      stop := index + 2 + (rest.takeWhile isParam).length
        + ((rest.drop (rest.takeWhile isParam).length).takeWhile isIntermediate).length + 1 } := by
  have hinters : ∀ n, bytes.drop (index + 2 + n) = rest.drop n := fun n => by
    rw [← hdrop, List.drop_drop]
  unfold parseCsi
  dsimp only
  rw [hdrop, hinters, Nat.add_assoc (index + 2), getElem?_of_drop hdrop, hget]
  simp [hfinal]

theorem step_escape_other (hb : (Screen.mk .escape alt).ByteRegular b)
    (hcsi : b ≠ 0x5B) (hstring : introducesString b = false) :
    (Screen.mk .escape alt).step b = ⟨.ground, alt⟩ := by
  rcases hb with rfl | rfl | ⟨hlow, hdel⟩
  · rfl
  · rfl
  · have hesc : b ≠ esc := by
      rintro rfl
      exact absurd hlow (by decide)
    have hctl : ¬ b < 0x20 := UInt8.not_lt.mpr hlow
    simp [step, escapeByte, hcsi, hstring, hesc, hctl, hdel]

theorem scan_sequence {inAlt : Bool} {enterMode : Nat} (hindex : index < boundary)
    (hbytes : bytes.drop index = esc :: rest) (hfin : (Screen.mk .escape inAlt).finish rest = some q)
    (hregular : (Screen.mk .escape inAlt).Regular q) (hmode : enterMode ∈ altModes) (fuel : Nat) :
    ∃ stop inAlt' enterMode', EndsAt (index + 1) q stop ∧ enterMode' ∈ altModes ∧
      (Screen.mk .escape inAlt).read q = ⟨.ground, inAlt'⟩ ∧
      scan bytes boundary (fuel + 1) index inAlt enterMode
        = scan bytes boundary fuel stop inAlt' enterMode' := by
  have hesc : bytes[index]? = some esc := getElem?_of_drop hbytes 0
  cases rest with
  | nil => simp [finish] at hfin
  | cons b rest =>
    obtain ⟨q, rfl, hrest⟩ := finish_cons_some (by simp) hfin
    obtain ⟨hb, hregular⟩ := regular_cons.mp hregular
    have hnext : bytes[index + 1]? = some b := getElem?_of_drop hbytes 1
    have hlen : ¬ index + 1 ≥ bytes.length := by
      grind
    have hdrop : bytes.drop (index + 2) = rest := by
      have htail := congrArg (List.drop 2) hbytes
      rw [List.drop_drop] at htail
      exact htail
    rw [scan, if_pos hindex, if_neg (by rw [hesc]; simpa using hlen), hnext]
    by_cases hcsi : b = 0x5B
    case pos =>
      subst hcsi
      have hstep : (Screen.mk .escape inAlt).step 0x5B = ⟨.csi [], inAlt⟩ := rfl
      obtain ⟨final, hget, hfinal, hcount, hread⟩ := csi_sequence hrest hregular
      rw [parseCsi_eq hdrop hget hfinal]
      dsimp only
      have hstop : EndsAt (index + 1) (0x5B :: q) (index + 2 + (rest.takeWhile isParam).length
          + ((rest.drop (rest.takeWhile isParam).length).takeWhile isIntermediate).length + 1) := by
        refine .all ?_
        simp only [List.length_cons]
        omega
      rcases altTransitionParam_cases (rest.takeWhile isParam)
        ((rest.drop (rest.takeWhile isParam).length).takeWhile isIntermediate) final _ inAlt with
        ⟨mode, hmem, hsome, halt⟩ | ⟨hnone, halt⟩
      · rw [hsome]
        refine ⟨_, _, _, hstop, ?_, ?_, rfl⟩
        · by_cases hset : final = 0x68 <;> simp [hset, hmem, hmode]
        · rw [read_cons, hstep, hread]
          simpa using halt
      · rw [hnone]
        refine ⟨_, _, _, hstop, hmode, ?_, rfl⟩
        rw [read_cons, hstep, hread]
        simpa using halt
    case neg =>
      by_cases hstring : introducesString b = true
      case pos =>
        have hstep : (Screen.mk .escape inAlt).step b = ⟨.string (b = 0x5D), inAlt⟩ := by
          simp [step, escapeByte, hcsi, hstring]
        rw [hstep] at hrest hregular
        obtain ⟨hread, bodyEnd, stop, heq, hends⟩ := string_sequence (index + 2) hrest
        have hsequence : stringSequenceEnd bytes (index + 2) (.replay (b = 0x5D))
            = some ⟨bodyEnd, stop⟩ := by
          unfold stringSequenceEnd
          rw [hdrop, heq]
        have hmem : b ∈ ([0x5D, 0x50, 0x58, 0x5E, 0x5F] : List UInt8) := by
          simpa [introducesString] using hstring
        refine ⟨stop, inAlt, enterMode, hends.cons b, hmode, ?_, ?_⟩
        · rw [read_cons, hstep, hread]
        · grind
      case neg =>
        have hstep := step_escape_other hb hcsi (Bool.eq_false_iff.mpr hstring)
        have hmem : b ∉ ([0x5D, 0x50, 0x58, 0x5E, 0x5F] : List UInt8) := by
          simpa [introducesString] using hstring
        rw [hstep, finish_ground rfl] at hrest
        cases hrest
        refine ⟨index + 2, inAlt, enterMode, .all rfl, hmode, ?_, ?_⟩
        · rw [read_cons, hstep]; rfl
        · grind

/-- From the start of a sequence or of text, where the terminal is in the
ground state: the scan ends in the screen the terminal shows once it has
finished the sequence it is in at the boundary. -/
theorem scan_spec {peek : List UInt8} (fuel : Nat) :
    ∀ (before dropped : List UInt8) (inAlt : Bool) (enterMode : Nat),
      dropped.length ≤ fuel → enterMode ∈ altModes →
      ((Screen.mk .ground inAlt).read dropped).finish peek = some rest →
      (Screen.mk .ground inAlt).Regular (dropped ++ rest) →
      ∃ enterMode' ∈ altModes, scan (before ++ (dropped ++ peek))
        (before.length + dropped.length) fuel before.length inAlt enterMode
        = (((Screen.mk .ground inAlt).read (dropped ++ rest)).alt, enterMode') := by
  induction fuel with
  | zero =>
    intro before dropped inAlt enterMode hfuel hmode hfin _
    have hnil : dropped = [] := List.eq_nil_of_length_eq_zero (by omega)
    subst hnil
    rw [read_nil, finish_ground rfl] at hfin
    cases hfin
    exact ⟨enterMode, hmode, rfl⟩
  | succ fuel ih =>
    intro before dropped inAlt enterMode hfuel hmode hfin hregular
    cases dropped with
    | nil =>
      rw [read_nil, finish_ground rfl] at hfin
      cases hfin
      exact ⟨enterMode, hmode, scan_done (Nat.le_refl _) _ _ _ _⟩
    | cons b dropped =>
      have hdrop : (before ++ (b :: dropped ++ peek)).drop before.length
          = b :: (dropped ++ peek) := List.drop_left
      have hindex : before.length < before.length + (b :: dropped).length := by
        simp only [List.length_cons]
        omega
      have hcons : b :: dropped ++ rest = b :: (dropped ++ rest) := rfl
      simp only [List.length_cons] at hfuel
      by_cases hesc : b = esc
      case neg =>
        have hstep : (Screen.mk .ground inAlt).step b = ⟨.ground, inAlt⟩ := by simp [step, hesc]
        rw [read_cons, hstep] at hfin
        rw [hcons, regular_cons, hstep] at hregular
        obtain ⟨enterMode', hmode', heq⟩ := ih (before ++ [b]) dropped inAlt enterMode (by omega)
          hmode hfin hregular.2
        refine ⟨enterMode', hmode', ?_⟩
        rw [scan_text hindex hdrop hesc, hcons, read_cons, hstep, ← heq]
        simp [Nat.add_assoc, Nat.add_comm 1]
      case pos =>
        subst hesc
        have hstep : (Screen.mk .ground inAlt).step esc = ⟨.escape, inAlt⟩ := by simp [step]
        rw [read_cons, hstep] at hfin
        rw [hcons, regular_cons, hstep] at hregular
        obtain ⟨_, hregular⟩ := hregular
        rw [hcons, read_cons, hstep]
        cases hclosed : (Screen.mk .escape inAlt).finish dropped with
        | none =>
          -- the sequence goes past the boundary, and the scan ends with it
          obtain ⟨hopen, happend⟩ := finish_append_of_none hclosed peek
          rw [hfin] at happend
          have hrest : rest ≠ [] := by
            rintro rfl
            exact hopen (finish_spec hfin).2
          obtain ⟨stop, inAlt', enterMode', ⟨done, left, hq, _, hleft, hstop⟩, hmode', hread, heq⟩ :=
            scan_sequence hindex hdrop happend hregular hmode fuel
          refine ⟨enterMode', hmode', ?_⟩
          have hlen := congrArg List.length hq
          have hpos := List.length_pos_iff.mpr hrest
          simp only [List.length_append] at hlen
          rw [heq, hread, scan_done]
          simp only [List.length_cons]
          omega
        | some q =>
          obtain ⟨⟨tail, rfl⟩, _⟩ := finish_spec hclosed
          have hwhole := finish_append_of_some hclosed peek
          rw [List.append_assoc q tail rest, regular_append] at hregular
          obtain ⟨hregular, htail⟩ := hregular
          obtain ⟨stop, inAlt', enterMode', ⟨done, left, rfl, htext, _, rfl⟩, hmode', hread, heq⟩ :=
            scan_sequence hindex hdrop hwhole hregular hmode fuel
          obtain ⟨hleft, hleftRegular⟩ := read_text htext inAlt'
          rw [read_append, hread] at hfin
          rw [hread] at htail
          simp only [List.length_append] at hfuel
          obtain ⟨enterMode'', hmode'', hscan⟩ := ih (before ++ esc :: done) (left ++ tail) inAlt'
            enterMode' (by simp only [List.length_append]; omega) hmode'
            (by rw [read_append, hleft]; exact hfin)
            (by rw [List.append_assoc, regular_append, hleft]; exact ⟨hleftRegular, htail⟩)
          refine ⟨enterMode'', hmode'', ?_⟩
          rw [heq, List.append_assoc (done ++ left) tail rest, read_append, hread]
          rw [List.append_assoc left tail rest, read_append, hleft] at hscan
          rw [← hscan]
          simp [Nat.add_assoc, Nat.add_comm 1]

/-! ## §3 The cut -/

/-- A cut the repair can make good: what the kept head has to finish, of a
sequence the cut falls into, is among the bytes the scan peeks at, and holds
no escape, so that on its own it is read as text. -/
def CleanCut (dropped keptHead : List UInt8) : Prop :=
  ∃ rest, (init.read dropped).finish (keptHead.take straddlePeekBytes) = some rest ∧ esc ∉ rest

instance (dropped keptHead : List UInt8) : Decidable (CleanCut dropped keptHead) :=
  match h : (init.read dropped).finish (keptHead.take straddlePeekBytes) with
  | none => .isFalse (by simp [CleanCut, h])
  | some rest => decidable_of_iff (esc ∉ rest) (by simp [CleanCut, h])

theorem reopenSequence_spec (hfin : (init.read dropped).finish (keptHead.take straddlePeekBytes) = some rest)
    (hregular : init.Regular (dropped ++ rest)) :
    ((init.read (dropped ++ rest)).alt = false ∧ reopenSequence dropped keptHead = none) ∨
    ∃ mode ∈ altModes, (init.read (dropped ++ rest)).alt = true ∧
      reopenSequence dropped keptHead = some (enterSequence mode) := by
  obtain ⟨mode, hmode, hscan⟩ := scan_spec dropped.length [] dropped false 1049 (Nat.le_refl _)
    (by decide) hfin hregular
  have hinit : Screen.mk .ground false = init := rfl
  rw [List.nil_append, List.length_nil, Nat.zero_add, hinit] at hscan
  unfold reopenSequence
  dsimp only
  rw [hscan]
  cases (init.read (dropped ++ rest)).alt with
  | false => exact .inl ⟨rfl, rfl⟩
  | true => exact .inr ⟨mode, hmode, rfl, rfl⟩

theorem read_enterSequence {mode : Nat} (h : mode ∈ altModes) :
    init.read (enterSequence mode) = ⟨.ground, true⟩ ∧ init.Regular (enterSequence mode) := by
  simp only [altModes, List.mem_cons, List.not_mem_nil, or_false] at h
  rcases h with rfl | rfl | rfl <;> decide +kernel

/-- Of a clean cut in well-formed output: the re-opener and the kept bytes
take a terminal where the dropped and the kept bytes would have. -/
theorem reopen_sound {after : List UInt8} (hregular : init.Regular (dropped ++ (keptHead ++ after)))
    (hclean : CleanCut dropped keptHead) :
    let held := (reopenSequence dropped keptHead).getD [] ++ (keptHead ++ after)
    init.Regular held ∧ init.read held = init.read (dropped ++ (keptHead ++ after)) := by
  intro held
  obtain ⟨rest, hfin, htext⟩ := hclean
  obtain ⟨hpre, hground⟩ := finish_spec hfin
  obtain ⟨kept, hkept⟩ := hpre.trans (List.take_prefix straddlePeekBytes keptHead)
  have hsplit : dropped ++ (keptHead ++ after) = (dropped ++ rest) ++ (kept ++ after) := by
    rw [← hkept]
    simp
  rw [hsplit, regular_append] at hregular
  obtain ⟨hbefore, hafter⟩ := hregular
  rw [← read_append] at hground
  -- both sides reach the kept bytes behind the cut sequence on the same screen
  have hscreen : init.read (dropped ++ rest) = ⟨.ground, (init.read (dropped ++ rest)).alt⟩ := by
    rw [← hground]
  have hopened : init.Regular ((reopenSequence dropped keptHead).getD []) ∧
      init.read ((reopenSequence dropped keptHead).getD [])
        = ⟨.ground, (init.read (dropped ++ rest)).alt⟩ := by
    rcases reopenSequence_spec hfin hbefore with ⟨halt, hnone⟩ | ⟨mode, hmode, halt, hsome⟩
    · rw [hnone, halt]
      exact ⟨trivial, rfl⟩
    · obtain ⟨hread, hopener⟩ := read_enterSequence hmode
      rw [hsome, halt]
      exact ⟨hopener, hread⟩
  obtain ⟨hopener, hread⟩ := hopened
  obtain ⟨hrest, hrestRegular⟩ := read_text htext (init.read (dropped ++ rest)).alt
  have hheld : held = (reopenSequence dropped keptHead).getD [] ++ (rest ++ (kept ++ after)) := by
    grind
  rw [hheld, hsplit]
  constructor
  · rw [regular_append, hread, regular_append, hrest]
    refine ⟨hopener, hrestRegular, ?_⟩
    rw [← hscreen]
    exact hafter
  · rw [read_append, hread, read_append, hrest, read_append init (dropped ++ rest), ← hscreen]

end SlopDesk.AltScreen
