/-
SlopDesk.Sanitize.DanglingSplit — what the split at a chunk's end holds back.

The escape split looks at the last `ESC` of its window and at what stands
behind it, so its answer is a predicate on that (`Unfinished`); a VT500
parser's answer is another, read off the same bytes. Both are decided kind by
kind in `unfinished_inside_iff`: where they differ an aborting byte, or a
final byte behind something that is not one, has ended the sequence
(`Ended`). The scalar split is followed through a text cut anywhere.
-/
import Mathlib.Data.List.TakeWhile
import SlopDesk.Base.VtParser
import SlopDesk.Base.Utf8
import SlopDesk.Sanitize.Boundary

namespace SlopDesk.Sanitize

open SlopDesk.Base
open SlopDesk.Base.Utf8 (Continues Scalar owing)

variable {front before bytes : List UInt8}
variable {rest got : List UInt8} {floor : Nat} {byte lead : UInt8} {text : List Char}

/-! ## The last introducer -/

theorem skipWhile_append (p : UInt8 → Bool) {cursor : Nat} (h : cursor = front.length) :
    skipWhile p (front ++ rest) cursor = (front ++ rest.takeWhile p).length := by
  simp [skipWhile, h]

theorem lastEscape_append (h : esc ∉ rest)
    (hfloor : floor ≤ before.length) : lastEscape (before ++ esc :: rest) floor = some before.length := by
  have hrest : ∀ p ∈ (rest.zipIdx (0 + before.length + 1)).reverse, p.1 ≠ esc := fun p hp hesc =>
    h (hesc ▸ List.fst_mem_of_mem_zipIdx (List.mem_reverse.mp hp))
  rw [lastEscape, List.zipIdx_append, List.zipIdx_cons,
    List.drop_append_of_le_length (by simpa using hfloor), List.reverse_append, List.reverse_cons,
    List.findSome?_append, List.findSome?_append, List.findSome?_eq_none_iff.mpr fun p hp => if_neg (hrest p hp)]
  simp

theorem lastEscape_none (h : esc ∉ bytes.drop floor) : lastEscape bytes floor = none := by
  rw [lastEscape, List.findSome?_eq_none_iff]
  rintro ⟨byte, index⟩ hmem
  have hbyte : byte ∈ bytes.drop floor := by
    rw [← List.zipIdx_map_fst 0 bytes, ← List.map_drop]
    exact List.mem_map_of_mem (List.mem_reverse.mp hmem)
  exact if_neg fun heq : byte = esc => h (heq ▸ hbyte)

theorem introducer_cases (bytes : List UInt8) (floor : Nat) : esc ∉ bytes.drop floor ∨
    ∃ before rest, bytes = before ++ esc :: rest ∧ esc ∉ rest ∧ floor ≤ before.length := by
  by_cases hmem : esc ∈ bytes.drop floor
  · obtain ⟨behind, ahead, hsplit, hnot⟩ := List.eq_append_cons_of_mem (List.mem_reverse.mpr hmem)
    have hdrop : bytes.drop floor = ahead.reverse ++ esc :: behind.reverse := by
      grind
    refine .inr ⟨bytes.take floor ++ ahead.reverse, behind.reverse, ?_, by simpa using hnot, ?_⟩
    · rw [List.append_assoc, ← hdrop, List.take_append_drop]
    · have hlength : floor ≤ bytes.length := by
        grind [List.drop_of_length_le]
      rw [List.length_append, List.length_take]
      omega
  · exact .inl hmem

theorem length_lt_window (h : (before ++ esc :: rest).length - trailingEscapeScanBytes ≤ before.length) :
    rest.length < trailingEscapeScanBytes := by
  rw [List.length_append, List.length_cons] at h
  omega

theorem last_unique {before' rest' : List UInt8} (h : before ++ esc :: rest = before' ++ esc :: rest')
    (hrest : esc ∉ rest) (hrest' : esc ∉ rest') : rest = rest' := by
  have htake (r : List UInt8) (hr : esc ∉ r) (b : List UInt8) :
      (b ++ esc :: r).reverse.takeWhile (· ≠ esc) = r.reverse := by
    have hall : ∀ byte ∈ r.reverse, decide (byte ≠ esc) := by
      grind
    rw [List.reverse_append, List.reverse_cons, List.append_assoc, List.takeWhile_append_of_pos hall]
    simp
  have hboth := htake rest hrest before
  rw [h, htake rest' hrest' before'] at hboth
  exact (List.reverse_inj.mp hboth).symm

/-! ## What stands behind it -/

/-- Whether the split takes for a sequence that goes on what is behind its
`ESC`. -/
def unfinished : List UInt8 → Bool
  | [] => true
  | kind :: rest =>
    if kind = 0x5B then !(((rest.dropWhile isParam).dropWhile isIntermediate).head?.any isFinal)
    else if kind = 0x5D then !(rest.contains bel)
    else if kind = 0x50 ∨ kind = 0x58 ∨ kind = 0x5E ∨ kind = 0x5F then true
    else if isIntermediate kind then rest.all isIntermediate
    else false

theorem getElem?_skipWhile (p : UInt8 → Bool) {cursor : Nat} (h : cursor = front.length) :
    (front ++ rest)[skipWhile p (front ++ rest) cursor]? = (rest.dropWhile p).head? := by
  have hsplit : front ++ rest = (front ++ rest.takeWhile p) ++ rest.dropWhile p := by simp
  rw [skipWhile_append p h, hsplit, List.getElem?_append_right (Nat.le_refl _), Nat.sub_self, List.head?_eq_getElem?]

theorem length_le_skipWhile {p : UInt8 → Bool} {cursor : Nat} (h : cursor = front.length) :
    (front ++ rest).length ≤ skipWhile p (front ++ rest) cursor ↔ rest.all p := by
  rw [skipWhile_append p h, List.length_append, List.length_append, Nat.add_le_add_iff_left, List.all_eq_true]
  constructor
  · intro hle
    have hall : rest.takeWhile p = rest := (List.takeWhile_prefix p).eq_of_length_le hle
    exact List.takeWhile_eq_self_iff.mp hall
  · intro hall
    rw [List.takeWhile_eq_self_iff.mpr hall]

theorem stop_csi {cursor : Nat} (h : cursor = front.length) :
    (front ++ rest)[skipWhile isIntermediate (front ++ rest) (skipWhile isParam (front ++ rest) cursor)]?
      = ((rest.dropWhile isParam).dropWhile isIntermediate).head? := by
  have hsplit : front ++ rest = (front ++ rest.takeWhile isParam) ++ rest.dropWhile isParam := by simp
  rw [skipWhile_append isParam h, hsplit]
  exact getElem?_skipWhile isIntermediate rfl

theorem incomplete_append (before rest : List UInt8) :
    incomplete (before ++ esc :: rest) before.length = .ok (unfinished rest) := by
  have hlast : Checked.sub (before ++ esc :: rest).length 1 = .ok (before.length + rest.length) := by
    rw [Checked.sub_ok (by simp only [List.length_append, List.length_cons]; omega)]
    simp
  rw [incomplete, hlast, Outcome.ok_bind]
  cases rest with
  | nil => simp [unfinished]
  | cons kind rest =>
    have hkind : (before ++ esc :: kind :: rest)[before.length + 1]?.getD 0 = kind := by simp
    have hone : before ++ esc :: kind :: rest = (before ++ [esc]) ++ kind :: rest := by simp
    rw [if_neg (by simp), hkind]
    simp only [unfinished]
    by_cases hcsi : kind = 0x5B
    · have hstop := @stop_csi (before ++ [esc, kind]) rest (before.length + 2) (by simp)
      simp [hcsi, ← hstop]
    · by_cases hosc : kind = 0x5D
      · simp [hosc]
      · by_cases hstring : kind = 0x50 ∨ kind = 0x58 ∨ kind = 0x5E ∨ kind = 0x5F
        · simp [hcsi, hosc, hstring]
        · by_cases hinter : isIntermediate kind
          · have hend : decide ((before ++ esc :: kind :: rest).length
                ≤ skipWhile isIntermediate (before ++ esc :: kind :: rest) (before.length + 1))
                = rest.all isIntermediate := by
              rw [Bool.eq_iff_iff, decide_eq_true_eq, hone, length_le_skipWhile (by simp), List.all_cons, hinter,
                Bool.true_and]
            rw [if_neg hcsi, if_neg hosc, if_neg hstring, if_pos hinter, if_neg hcsi, if_neg hosc, if_neg hstring,
              if_pos hinter, hend, Outcome.pure_eq]
          · simp [hcsi, hosc, hstring, hinter]

theorem splitTrailingIncompleteEscape_eq (h : esc ∉ rest) (hwindow : rest.length < trailingEscapeScanBytes) :
    splitTrailingIncompleteEscape (before ++ esc :: rest)
      = .ok (if unfinished rest then (before, esc :: rest) else (before ++ esc :: rest, [])) := by
  have hfloor : (before ++ esc :: rest).length - trailingEscapeScanBytes ≤ before.length := by
    rw [List.length_append, List.length_cons]
    omega
  rw [splitTrailingIncompleteEscape, if_neg (by simp), lastEscape_append h hfloor]
  simp only [incomplete_append, Outcome.ok_bind]
  split
  · exact Checked.splitAt_append before (esc :: rest)
  · rfl

theorem splitTrailingIncompleteEscape_none (h : esc ∉ bytes.drop (bytes.length - trailingEscapeScanBytes)) :
    splitTrailingIncompleteEscape bytes = .ok (bytes, []) := by
  rw [splitTrailingIncompleteEscape, lastEscape_none h]
  split <;> rfl

/-! ## Where a parser stands -/

/-- The bytes before the window's edge end where a parser is inside a sequence
that begins there. -/
def EndsInside (bytes : List UInt8) (introducer : Nat) : Prop :=
  ∃ within, Vt.read 0 none bytes = some (introducer, within)

/-- What the split takes for a sequence that goes on was ended: an aborting
byte stands in it, or a final byte behind one that is not a parameter, an
intermediate or a final. -/
def Ended : List UInt8 → Prop
  | [] => False
  | kind :: rest =>
    if kind = 0x5B then
      let behind := (rest.dropWhile isParam).dropWhile isIntermediate
      behind.head?.any isFinal = false ∧ ∃ byte ∈ behind, byte = can ∨ byte = sub ∨ isFinal byte
    else if kind = 0x5D then bel ∉ rest ∧ ∃ byte ∈ rest, byte = can ∨ byte = sub
    else if kind = 0x50 ∨ kind = 0x58 ∨ kind = 0x5E ∨ kind = 0x5F then ∃ byte ∈ rest, byte = can ∨ byte = sub
    else False

theorem endsInside_append (h : esc ∉ rest) : EndsInside (before ++ esc :: rest) before.length ↔
    (Vt.read (before.length + 1) (some (before.length, .escape)) rest).isSome := by
  rw [EndsInside, Vt.read_append, Nat.zero_add]
  show (∃ within, Vt.read _ _ (0x1B :: rest) = _) ↔ _
  rw [Vt.read_escape, Option.isSome_iff_exists]
  constructor
  · rintro ⟨within, hread⟩
    exact ⟨_, hread⟩
  · rintro ⟨⟨introducer, within⟩, hread⟩
    obtain rfl : introducer = before.length := Vt.read_opened h hread
    exact ⟨within, hread⟩

theorem plain_of_isParam (h : isParam byte) : ¬ Vt.Aborts byte ∧ ¬ Vt.Within.csi.Ends byte := by
  simp only [isParam, Bool.and_eq_true, decide_eq_true_eq, UInt8.le_iff_toNat_le] at h
  simp only [Vt.Aborts, Vt.Within.Ends, UInt8.le_iff_toNat_le, ← UInt8.toNat_inj]
  grind

theorem plain_of_isIntermediate (h : isIntermediate byte) :
    ¬ Vt.Aborts byte ∧ ¬ Vt.Within.csi.Ends byte ∧ ¬ Vt.Within.escapeIntermediate.Ends byte := by
  simp only [isIntermediate, Bool.and_eq_true, decide_eq_true_eq, UInt8.le_iff_toNat_le] at h
  simp only [Vt.Aborts, Vt.Within.Ends, UInt8.le_iff_toNat_le, ← UInt8.toNat_inj]
  grind

theorem plain_csi_iff (rest : List UInt8) : (∀ byte ∈ rest, ¬ Vt.Aborts byte ∧ ¬ Vt.Within.csi.Ends byte) ↔
    ∀ byte ∈ (rest.dropWhile isParam).dropWhile isIntermediate, ¬ Vt.Aborts byte ∧ ¬ Vt.Within.csi.Ends byte := by
  have hsplit : rest = rest.takeWhile isParam ++ ((rest.dropWhile isParam).takeWhile isIntermediate
      ++ (rest.dropWhile isParam).dropWhile isIntermediate) := by simp
  constructor
  · grind
  · intro h byte hbyte
    rw [hsplit, List.mem_append, List.mem_append] at hbyte
    rcases hbyte with hparam | hinter | hbehind
    · exact plain_of_isParam (List.mem_takeWhile_imp hparam)
    · obtain ⟨haborts, hends, -⟩ := plain_of_isIntermediate (List.mem_takeWhile_imp hinter)
      exact ⟨haborts, hends⟩
    · exact h byte hbehind

/-- A sequence that goes on for the split goes on for the parser, unless it
was ended. -/
theorem unfinished_inside_iff (h : esc ∉ rest) (hunfinished : unfinished rest) (i : Nat) :
    (Vt.read (i + 1) (some (i, .escape)) rest).isSome ↔ ¬ Ended rest := by
  cases rest with
  | nil => simp [Ended]
  | cons kind rest =>
    have hrest : 0x1B ∉ rest := fun hmem => h (List.mem_cons_of_mem _ hmem)
    have hkind : kind ≠ 0x1B := fun heq => h (heq ▸ List.mem_cons_self ..)
    simp only [unfinished] at hunfinished
    by_cases hcsi : kind = 0x5B
    · subst hcsi
      rw [Vt.read_introduced hkind (by decide) (by decide : _ = some Vt.Within.csi),
        Vt.isSome_read_iff hrest (by decide), plain_csi_iff]
      simp only [Ended, if_true] at hunfinished ⊢
      simp only [Bool.not_eq_true', ] at hunfinished
      simp only [hunfinished, true_and, not_exists, not_and, not_or, Vt.Aborts, Vt.Within.Ends, isFinal]
      simp [can, sub, and_assoc]
    · by_cases hosc : kind = 0x5D
      · subst hosc
        rw [Vt.read_introduced hkind (by decide) (by decide : _ = some Vt.Within.osc),
          Vt.isSome_read_iff hrest (by decide)]
        have hbel : bel ∉ rest := by simpa using hunfinished
        have hends : ∀ byte ∈ rest, byte ≠ bel := fun byte hmem heq => hbel (heq ▸ hmem)
        simp only [Ended, if_neg hcsi, if_true, hbel, not_false_eq_true, true_and, not_exists, not_and]
        exact forall_congr' fun byte => forall_congr' fun hmem => and_iff_left (hends byte hmem)
      · by_cases hstring : kind = 0x50 ∨ kind = 0x58 ∨ kind = 0x5E ∨ kind = 0x5F
        · have hintroduced : Vt.introduced kind = some .string := by
            rw [Vt.introduced, if_neg hcsi, if_neg hosc, if_pos hstring]
          have haborts : ¬ Vt.Aborts kind := by
            rcases hstring with rfl | rfl | rfl | rfl <;> decide
          rw [Vt.read_introduced hkind haborts hintroduced, Vt.isSome_read_iff hrest (by decide)]
          simp only [Ended, if_neg hcsi, if_neg hosc, if_pos hstring, not_exists, not_and]
          exact forall_congr' fun byte => forall_congr' fun _ => and_iff_left id
        · -- intermediates up to the end
          rw [if_neg hcsi, if_neg hosc, if_neg hstring] at hunfinished
          split at hunfinished
          case isTrue hinter =>
            have hintroduced : Vt.introduced kind = some .escapeIntermediate := by
              rw [Vt.introduced, if_neg hcsi, if_neg hosc, if_neg hstring, if_pos (by simpa [isIntermediate] using hinter)]
            have hall : ∀ byte ∈ rest, ¬ Vt.Aborts byte ∧ ¬ Vt.Within.escapeIntermediate.Ends byte := by
              intro byte hmem
              obtain ⟨haborts, -, hends⟩ := plain_of_isIntermediate (List.all_eq_true.mp hunfinished byte hmem)
              exact ⟨haborts, hends⟩
            rw [Vt.read_introduced hkind (plain_of_isIntermediate hinter).1 hintroduced]
            simp only [Ended, if_neg hcsi, if_neg hosc, if_neg hstring, not_false_eq_true, iff_true]
            exact (Vt.isSome_read_iff hrest (by decide) _ _).mpr hall
          case isFalse => contradiction

theorem unfinished_of_ended (h : Ended rest) : unfinished rest := by
  cases rest with
  | nil => rfl
  | cons kind rest =>
    grind [Ended, unfinished]

/-! ## The scalar at the end -/

theorem goesOn_eq (byte : UInt8) : (byte &&& 0xC0 == 0x80) = decide (Continues byte) := by
  obtain ⟨⟨n⟩⟩ := byte
  revert n
  decide +kernel

theorem owing_le (lead : UInt8) : owing lead ≤ 3 := by
  rw [owing]
  split_ifs <;> decide

theorem expectedContinuations_eq (h : lead.toNat < 128 ∨ 194 ≤ lead.toNat ∧ lead.toNat < 248) :
    expectedContinuations lead = if owing lead = 0 then none else some (owing lead) := by
  simp only [expectedContinuations, owing, UInt8.le_iff_toNat_le]
  grind

theorem splitTrailingIncompleteUtf8_eq {behind : List UInt8}
    (hlead : lead.toNat < 128 ∨ 194 ≤ lead.toNat ∧ lead.toNat < 248) (hbehind : ∀ byte ∈ behind, Continues byte)
    (hlength : behind.length ≤ owing lead) : splitTrailingIncompleteUtf8 (front ++ lead :: behind)
      = .ok (if behind.length < owing lead then (front, lead :: behind) else (front ++ lead :: behind, [])) := by
  have howing := owing_le lead
  have hn : (front ++ lead :: behind).length = front.length + behind.length + 1 := by simp [Nat.add_assoc]
  -- the window keeps the lead and all behind it
  obtain ⟨kept, hwindow⟩ : ∃ kept, (front ++ lead :: behind).drop ((front ++ lead :: behind).length - 4)
      = kept ++ lead :: behind := by
    refine ⟨_, List.drop_append_of_le_length ?_⟩
    omega
  have hnot : ¬ Continues lead := by
    rintro ⟨hlow, hhigh⟩
    omega
  have hcontinuations : (((kept ++ lead :: behind).reverse).takeWhile fun byte => byte &&& 0xC0 == 0x80)
      = behind.reverse := by
    simp only [goesOn_eq, List.reverse_append, List.reverse_cons, List.append_assoc]
    rw [List.takeWhile_append_of_pos (by simpa using hbehind), List.singleton_append,
      List.takeWhile_cons_of_neg (by simpa using hnot), List.append_nil]
  have hkept : (kept ++ lead :: behind).length = kept.length + behind.length + 1 := by simp [Nat.add_assoc]
  have hbehindOk : Checked.sub (kept ++ lead :: behind).length behind.length = .ok (kept.length + 1) := by
    rw [Checked.sub_ok (by omega)]
    exact congrArg _ (by omega)
  have hcut : Checked.sub (front ++ lead :: behind).length (behind.length + 1) = .ok front.length := by
    simp
  have hat : (kept ++ lead :: behind)[kept.length]?.getD 0 = lead := by simp
  simp only [splitTrailingIncompleteUtf8, hwindow, hcontinuations, List.length_reverse]
  rw [if_neg (by omega), if_neg (by omega), hbehindOk, Outcome.ok_bind, Checked.sub_ok (by omega), Outcome.ok_bind,
    Nat.add_sub_cancel, hat, expectedContinuations_eq hlead]
  by_cases hzero : owing lead = 0
  · rw [if_pos hzero, if_neg (by omega)]
    rfl
  · rw [if_neg hzero]
    by_cases hall : behind.length < owing lead
    · simp only [ge_iff_le, Nat.not_le.mpr hall, if_false, if_pos hall, hcut, Outcome.ok_bind]
      exact Checked.splitAt_append front (lead :: behind)
    · simp only [ge_iff_le, Nat.not_lt.mp hall, if_true, if_neg hall]
      rfl

theorem prefix_cases (h : got <+: Utf8.bytes text) :
    (∃ chars, got = Utf8.bytes chars) ∨ ∃ chars lead behind, got = Utf8.bytes chars ++ lead :: behind ∧
      (lead.toNat < 128 ∨ 194 ≤ lead.toNat ∧ lead.toNat < 248) ∧ (∀ byte ∈ behind, Continues byte) ∧
      behind.length < owing lead := by
  induction text generalizing got with
  | nil =>
    exact .inl ⟨[], List.prefix_nil.mp h⟩
  | cons c text ih =>
    obtain ⟨lead, rest, henc, hscalar⟩ := Utf8.scalar_utf8EncodeChar c
    rw [Utf8.bytes_cons, henc] at h
    rcases List.prefix_or_prefix_of_prefix h (List.prefix_append (lead :: rest) (Utf8.bytes text)) with hshort | ⟨more, rfl⟩
    · -- the cut is in the first character, or right behind it
      rcases List.prefix_cons_iff.mp hshort with rfl | ⟨behind, rfl, hbehind⟩
      · exact .inl ⟨[], rfl⟩
      by_cases hall : behind.length < owing lead
      · exact .inr ⟨[], lead, behind, rfl, hscalar.first, fun byte hmem => hscalar.continues byte (hbehind.subset hmem), hall⟩
      · have hrest : behind = rest := hbehind.eq_of_length_le (by rw [hscalar.length]; omega)
        refine .inl ⟨[c], ?_⟩
        rw [Utf8.bytes_cons, henc, hrest]
        exact (List.append_nil _).symm
    · rw [List.prefix_append_right_inj] at h
      rcases ih h with ⟨chars, rfl⟩ | ⟨chars, lead', behind, rfl, hrest⟩
      · exact .inl ⟨c :: chars, by rw [Utf8.bytes_cons, henc]⟩
      · refine .inr ⟨c :: chars, lead', behind, ?_, hrest⟩
        rw [Utf8.bytes_cons, henc, List.append_assoc]

theorem bytes_cases (chars : List Char) : Utf8.bytes chars = [] ∨ ∃ front lead behind,
    Utf8.bytes chars = front ++ lead :: behind ∧ Scalar lead behind := by
  rcases List.eq_nil_or_concat chars with rfl | ⟨chars, c, rfl⟩
  · exact .inl rfl
  · obtain ⟨lead, behind, henc, hscalar⟩ := Utf8.scalar_utf8EncodeChar c
    refine .inr ⟨Utf8.bytes chars, lead, behind, ?_, hscalar⟩
    rw [List.concat_eq_append, Utf8.bytes_append, Utf8.bytes_cons, henc]
    exact congrArg _ (List.append_nil _)

/-- The scalar split of a text that was cut anywhere: a text, and fewer bytes
than a scalar has. -/
theorem splitTrailingIncompleteUtf8_prefix (h : got <+: Utf8.bytes text) :
    ∃ chars dangling, splitTrailingIncompleteUtf8 got = .ok (Utf8.bytes chars, dangling) ∧ dangling.length < 4 := by
  rcases prefix_cases h with ⟨chars, rfl⟩ | ⟨chars, lead, behind, rfl, hlead, hbehind, hlength⟩
  · refine ⟨chars, [], ?_, by decide⟩
    rcases bytes_cases chars with hnil | ⟨front, lead, behind, heq, hscalar⟩
    · rw [hnil]
      rfl
    · rw [heq, splitTrailingIncompleteUtf8_eq hscalar.first hscalar.continues (Nat.le_of_eq hscalar.length),
        if_neg (by rw [hscalar.length]; exact Nat.lt_irrefl _)]
  · refine ⟨chars, lead :: behind, ?_, ?_⟩
    · rw [splitTrailingIncompleteUtf8_eq hlead hbehind (Nat.le_of_lt hlength), if_pos hlength]
    · have howing := owing_le lead
      rw [List.length_cons]
      omega

/-! ## Nothing lost -/

/-- A split that answers, and loses nothing of what it was given. -/
def Rejoins (split : List UInt8 → Checked (List UInt8 × List UInt8)) (bytes : List UInt8) : Prop :=
  ∃ head dangling, split bytes = .ok (head, dangling) ∧ head ++ dangling = bytes

theorem rejoins_splitAt {i : Nat} (h : i ≤ bytes.length) :
    ∃ head dangling, Checked.splitAt bytes i = .ok (head, dangling) ∧ head ++ dangling = bytes :=
  ⟨_, _, Checked.splitAt_ok h, List.take_append_drop ..⟩

theorem rejoins_whole (bytes : List UInt8) :
    ∃ head dangling, (pure (bytes, []) : Checked (List UInt8 × List UInt8)) = .ok (head, dangling)
      ∧ head ++ dangling = bytes :=
  ⟨bytes, [], rfl, List.append_nil bytes⟩

theorem rejoins_escape (bytes : List UInt8) : Rejoins splitTrailingIncompleteEscape bytes := by
  rcases introducer_cases bytes (bytes.length - trailingEscapeScanBytes) with hnone | ⟨before, rest, rfl, hrest, hfloor⟩
  · exact ⟨bytes, [], splitTrailingIncompleteEscape_none hnone, List.append_nil bytes⟩
  · grind [Rejoins, splitTrailingIncompleteEscape_eq]

theorem rejoins_utf8 (bytes : List UInt8) : Rejoins splitTrailingIncompleteUtf8 bytes := by
  simp only [Rejoins, splitTrailingIncompleteUtf8]
  split
  · exact rejoins_whole bytes
  split
  · exact rejoins_whole bytes
  · have hwindow : (bytes.drop (bytes.length - 4)).length ≤ bytes.length := by
      rw [List.length_drop]
      exact Nat.sub_le ..
    rw [Checked.sub_ok (by omega), Outcome.ok_bind, Checked.sub_ok (by omega), Outcome.ok_bind]
    split
    · exact rejoins_whole bytes
    · split
      · exact rejoins_whole bytes
      · rw [Checked.sub_ok (by omega), Outcome.ok_bind]
        exact rejoins_splitAt (Nat.sub_le ..)

theorem rejoins_both (bytes : List UInt8) : Rejoins splitTrailingIncomplete bytes := by
  obtain ⟨head, dangling, hsplit, hjoin⟩ := rejoins_escape bytes
  rw [Rejoins, splitTrailingIncomplete, hsplit, Outcome.ok_bind]
  cases dangling with
  | nil =>
    rw [← hjoin, List.append_nil]
    exact rejoins_utf8 head
  | cons byte dangling => exact ⟨head, byte :: dangling, rfl, hjoin⟩

/-! ## The exact split -/

/-- What the escape split holds back is where a parser ends, inside a sequence
that begins with it and within the window. -/
def HoldsBackOpen (bytes : List UInt8) : Prop :=
  ∀ head dangling, splitTrailingIncompleteEscape bytes = .ok (head, dangling) → dangling ≠ [] →
    EndsInside bytes head.length ∧ bytes.length ≤ head.length + trailingEscapeScanBytes

/-- The last `ESC` of the window begins a sequence that was ended where the
split does not look. -/
def Overlooked (bytes : List UInt8) : Prop :=
  ∃ before rest, bytes = before ++ esc :: rest ∧ esc ∉ rest ∧ rest.length < trailingEscapeScanBytes ∧ Ended rest

theorem holdsBackOpen_iff (bytes : List UInt8) : HoldsBackOpen bytes ↔ ¬ Overlooked bytes := by
  rcases introducer_cases bytes (bytes.length - trailingEscapeScanBytes) with hnone | ⟨before, rest, rfl, hrest, hfloor⟩
  · have hsplit := splitTrailingIncompleteEscape_none hnone
    refine iff_of_true ?_ ?_
    · intro head dangling h hdangling
      obtain ⟨rfl, rfl⟩ := Prod.mk.inj (Outcome.ok.inj (hsplit.symm.trans h))
      exact absurd rfl hdangling
    · rintro ⟨before, rest, rfl, -, hwindow, -⟩
      refine hnone ?_
      rw [List.drop_append_of_le_length (by simp; omega)]
      simp
  · have hwindow := length_lt_window hfloor
    have hsplit := @splitTrailingIncompleteEscape_eq before rest hrest hwindow
    have hoverlooked : Overlooked (before ++ esc :: rest) ↔ Ended rest := by
      constructor
      · rintro ⟨before', rest', heq, hrest', -, hended⟩
        rwa [last_unique heq hrest hrest']
      · exact fun hended => ⟨before, rest, rfl, hrest, hwindow, hended⟩
    rw [hoverlooked]
    by_cases hunfinished : unfinished rest
    · rw [if_pos hunfinished] at hsplit
      rw [← unfinished_inside_iff hrest hunfinished before.length, ← endsInside_append hrest]
      constructor
      · intro h
        exact (h before (esc :: rest) hsplit (List.cons_ne_nil _ _)).1
      · intro hinside head dangling h _
        obtain ⟨rfl, rfl⟩ := Prod.mk.inj (Outcome.ok.inj (hsplit.symm.trans h))
        refine ⟨hinside, ?_⟩
        omega
    · rw [if_neg hunfinished] at hsplit
      refine iff_of_true ?_ fun hended => hunfinished (unfinished_of_ended hended)
      intro head dangling h hdangling
      obtain ⟨rfl, rfl⟩ := Prod.mk.inj (Outcome.ok.inj (hsplit.symm.trans h))
      exact absurd rfl hdangling

/-- The split at a chunk's end. What is held back and what is not make up the
chunk, for the escape split, the scalar split and the two in order. What the
escape split holds back is a sequence that a parser ends inside of, unless
that sequence was ended and the split overlooked it. And the scalar split of a
text that was cut anywhere leaves a text and holds back less than a scalar. -/
theorem dangling_split (bytes : List UInt8) :
    (Rejoins splitTrailingIncompleteEscape bytes ∧ Rejoins splitTrailingIncompleteUtf8 bytes
      ∧ Rejoins splitTrailingIncomplete bytes) ∧
    (HoldsBackOpen bytes ↔ ¬ Overlooked bytes) ∧
    ∀ text, bytes <+: Utf8.bytes text →
      ∃ chars dangling, splitTrailingIncompleteUtf8 bytes = .ok (Utf8.bytes chars, dangling) ∧ dangling.length < 4 :=
  ⟨⟨rejoins_escape bytes, rejoins_utf8 bytes, rejoins_both bytes⟩, holdsBackOpen_iff bytes,
    fun _ => splitTrailingIncompleteUtf8_prefix⟩

/-- `CAN` aborts the control sequence, and the text behind it is held back. -/
theorem aborted_held_back : ¬ HoldsBackOpen [0x61, 0x1B, 0x5B, 0x31, 0x18, 0x61] := by
  intro h
  obtain ⟨⟨within, hread⟩, -⟩ := h [0x61] [0x1B, 0x5B, 0x31, 0x18, 0x61] (by decide) (by decide)
  contradiction

end SlopDesk.Sanitize
