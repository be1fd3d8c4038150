/-
SlopDesk.Sanitize.PlainTextTheorems — the text of a stream that comes in
chunks is the text of the stream.

A sequence that `completeSequenceEnd` has found ends in the same place
whatever comes behind it, and so does its codepoint for a lead
(`sequence_front`): the text of what is ready and the text of what is held
back, with everything behind it, are the text of both (`plain_ready`).
-/
import SlopDesk.Sanitize.PlainText
import SlopDesk.Sanitize.Sequences

namespace SlopDesk.Sanitize

variable {bytes front : List UInt8} {stop : Nat} {sequence : StringSequence} {byte : UInt8}
variable {opening params : List UInt8} {body : Nat}

/-! ## A sequence in front of other bytes -/

/-- Bytes that can stand behind the first `stop` in place of those that do:
any bytes behind the last one, and else none or some that begin alike. -/
def Follows (bytes : List UInt8) (stop : Nat) (after : List UInt8) : Prop :=
  bytes.drop stop = [] ∨ ∀ c, after.head? = some c → (bytes.drop stop).head? = some c

theorem follows_append (more : List UInt8) : Follows bytes stop (bytes.drop stop ++ more) := by
  cases hrest : bytes.drop stop with
  | nil => exact .inl hrest
  | cons byte rest => exact .inr (by simp [hrest])

theorem follows_take (k : Nat) : Follows bytes stop ((bytes.drop stop).take k) := by
  refine .inr fun c hc => ?_
  cases k with
  | zero => simp at hc
  | succ k => simpa [List.head?_take] using hc

theorem introducer_front {introduced : Introduced} (h : introducer bytes = some introduced)
    {k : Nat} (hk : introduced.body ≤ k) (after : List UInt8) :
    introducer (bytes.take k ++ after) = some introduced := by
  have hpos := (body_fits h).1
  cases bytes with
  | nil => cases h
  | cons byte rest =>
    obtain ⟨k, rfl⟩ : ∃ j, k = j + 1 := ⟨k - 1, by omega⟩
    simp only [List.take_succ_cons, List.cons_append]
    unfold introducer at h ⊢
    by_cases hcsi : byte = c1Csi
    · simpa [hcsi] using h
    by_cases hosc : byte = c1Osc
    · simpa [hosc, show c1Osc ≠ c1Csi by decide] using h
    by_cases hesc : byte = esc
    · simp only [if_neg hcsi, if_neg hosc, if_pos hesc] at h ⊢
      cases rest with
      | nil => cases h
      | cons name others =>
        have htwo : introduced.body = 2 := by
          simp only at h
          split_ifs at h <;> cases h <;> rfl
        obtain ⟨k, rfl⟩ : ∃ j, k = j + 1 := ⟨k - 1, by omega⟩
        exact h
    · simp [hcsi, hosc, hesc] at h

theorem csiEnd_of_split {inters rest : List UInt8} (hparams : ∀ b ∈ params, isParam b)
    (hinters : ∀ b ∈ inters, isIntermediate b) (hrest : ∀ b ∈ rest.head?, ¬ isIntermediate b)
    (hhead : ∀ b ∈ (inters ++ rest).head?, ¬ isParam b) :
    (opening ++ (params ++ (inters ++ rest)))[csiIndex (opening ++ (params ++ (inters ++ rest))) opening.length]? =
        rest.head? ∧
      csiEnd (opening ++ (params ++ (inters ++ rest))) opening.length =
        (opening ++ (params ++ inters)).length + if rest.head?.any isFinal then 1 else 0 := by
  have hdrop : (opening ++ (params ++ (inters ++ rest))).drop (opening.length + params.length) = inters ++ rest := by
    rw [← List.append_assoc, ← List.length_append, List.drop_left]
  have hindex : csiIndex (opening ++ (params ++ (inters ++ rest))) opening.length =
      opening.length + params.length + inters.length := by
    simp only [csiIndex, List.drop_left, takeWhile_front hparams hhead, hdrop, takeWhile_front hinters hrest]
  have hat : (opening ++ (params ++ (inters ++ rest)))[csiIndex (opening ++ (params ++ (inters ++ rest)))
      opening.length]? = rest.head? := by
    rw [hindex, ← List.getElem?_drop, hdrop, List.getElem?_append_right (Nat.le_refl _), Nat.sub_self,
      List.head?_eq_getElem?]
  refine ⟨hat, ?_⟩
  rw [csiEnd, hat, hindex]
  simp [Nat.add_assoc]

/-- The parts of a `CSI` that begins at `body`, and what is behind it. -/
theorem exists_split (bytes : List UInt8) (hbody : body ≤ bytes.length) :
    ∃ opening params inters rest : List UInt8, bytes = opening ++ (params ++ (inters ++ rest)) ∧
      opening.length = body ∧ (∀ b ∈ params, isParam b) ∧ (∀ b ∈ inters, isIntermediate b) ∧
      (∀ b ∈ rest.head?, ¬ isIntermediate b) ∧ ∀ b ∈ (inters ++ rest).head?, ¬ isParam b := by
  have hdropWhile : ∀ (p : UInt8 → Bool) (l : List UInt8), ∀ b ∈ (l.dropWhile p).head?, ¬ p b := by
    intro p l b hb
    have := List.head?_dropWhile_not p l
    rw [Option.mem_def.mp hb] at this
    simpa using this
  refine ⟨bytes.take body, (bytes.drop body).takeWhile isParam,
    ((bytes.drop body).dropWhile isParam).takeWhile isIntermediate,
    ((bytes.drop body).dropWhile isParam).dropWhile isIntermediate, by simp, by simpa using hbody,
    fun b hb => List.mem_takeWhile_imp hb, fun b hb => List.mem_takeWhile_imp hb, hdropWhile _ _, ?_⟩
  rw [List.takeWhile_append_dropWhile]
  exact hdropWhile _ _

theorem le_bodyEnd {t : Terminators} :
    ∀ {j : Nat}, stringEndFrom t j bytes = some sequence → j ≤ sequence.bodyEnd := by
  induction bytes with
  | nil => simp [stringEndFrom]
  | cons byte rest ih =>
    intro j h
    rw [stringEndFrom] at h
    split_ifs at h
    all_goals first
      | (cases h; exact Nat.le_refl _)
      | exact (Nat.le_succ j).trans (ih h)

theorem stringEnd_front :
    ∀ {j : Nat}, stringEndFrom .lenient j bytes = some sequence →
      (bytes[sequence.bodyEnd - j]? = some esc → sequence.seqEnd ≠ j + bytes.length) →
      ∀ after, Follows bytes (sequence.seqEnd - j) after →
      ((stringEndFrom .lenient j (bytes.take (sequence.seqEnd - j) ++ after)).map (·.seqEnd)).getD
        (j + (bytes.take (sequence.seqEnd - j) ++ after).length) = sequence.seqEnd := by
  induction bytes with
  | nil => simp [stringEndFrom]
  | cons byte rest ih =>
    intro j h hcut after hafter
    rw [stringEndFrom] at h
    by_cases habort : byte = can ∨ byte = sub
    · rw [if_pos habort] at h
      cases h
      cases after with
      | nil => simp [stringEndFrom]
      | cons c after =>
        obtain rfl : c = byte := by simpa [Follows, eq_comm] using hafter
        simp [stringEndFrom, habort]
    rw [if_neg habort] at h
    by_cases hend : byte = bel ∨ byte = c1St
    · rw [if_pos (by simpa [Terminators.lenient] using hend)] at h
      cases h
      simp [stringEndFrom, habort, Terminators.lenient, hend]
    have hgoes : ¬((Terminators.lenient.bel ∧ byte = bel) ∨ (Terminators.lenient.c1St ∧ byte = c1St)) := by
      simpa [Terminators.lenient] using hend
    rw [if_neg hgoes] at h
    by_cases hesc : byte = esc
    · rw [if_pos hesc] at h
      by_cases hst : rest.head? = some 0x5C
      · rw [if_pos hst] at h
        cases h
        obtain ⟨others, rfl⟩ := List.head?_eq_some_iff.mp hst
        simp only [Nat.add_sub_cancel_left, List.take_succ_cons, List.take_zero, List.cons_append, List.nil_append]
        rw [stringEndFrom, if_neg habort, if_neg hgoes, if_pos hesc]
        simp
      · rw [if_neg hst, if_pos (by rfl)] at h
        cases h
        have hne : rest ≠ [] := by
          rintro rfl
          simp [hesc] at hcut
        have hst' : after.head? ≠ some 0x5C := by
          rcases hafter with hnil | hhead
          · simp [hne] at hnil
          · exact fun h => hst (by simpa using hhead _ h)
        simp only [Nat.add_sub_cancel_left, List.take_succ_cons, List.take_zero, List.cons_append, List.nil_append]
        rw [stringEndFrom, if_neg habort, if_neg hgoes, if_pos hesc, if_neg hst', if_pos (by rfl)]
        simp
    · rw [if_neg hesc] at h
      have hle := le_stringEndFrom h
      have hbody := le_bodyEnd h
      obtain ⟨k, hk⟩ : ∃ k, sequence.seqEnd = j + 1 + k := ⟨sequence.seqEnd - (j + 1), by omega⟩
      obtain ⟨m, hm⟩ : ∃ m, sequence.bodyEnd = j + 1 + m := ⟨sequence.bodyEnd - (j + 1), by omega⟩
      have hk' : sequence.seqEnd - (j + 1) = k := by omega
      have hm' : sequence.bodyEnd - (j + 1) = m := by omega
      rw [show sequence.seqEnd - j = k + 1 by omega] at hafter ⊢
      rw [show sequence.bodyEnd - j = m + 1 by omega] at hcut
      have := ih h (by simpa [hm', Nat.add_assoc, Nat.add_comm 1] using hcut) after (by simpa [Follows, hk'] using hafter)
      rw [hk'] at this
      rw [List.take_succ_cons, List.cons_append, stringEndFrom, if_neg habort, if_neg hgoes, if_neg hesc]
      simpa [Nat.add_assoc, Nat.add_comm 1, Nat.add_left_comm 1] using this

/-- Where a sequence that was found ends whatever else follows it. -/
def EndsAt (bytes : List UInt8) (stop : Nat) : Prop :=
  stop ≤ bytes.length ∧ ∀ after, Follows bytes stop after → sequenceEnd (bytes.take stop ++ after) = some stop

/-- A `CSI` that ran into a byte ends there in front of any that begin
with it. -/
theorem csi_endsAt {inters rest : List UInt8}
    (hintroducer : introducer (opening ++ (params ++ (inters ++ byte :: rest))) = some (.csi opening.length))
    (hparams : ∀ b ∈ params, isParam b) (hinters : ∀ b ∈ inters, isIntermediate b)
    (hrest : ∀ b ∈ (byte :: rest).head?, ¬ isIntermediate b)
    (hhead : ∀ b ∈ (inters ++ byte :: rest).head?, ¬ isParam b) :
    EndsAt (opening ++ (params ++ (inters ++ byte :: rest)))
      (csiEnd (opening ++ (params ++ (inters ++ byte :: rest))) opening.length) := by
  have hassoc : ∀ l : List UInt8, opening ++ (params ++ (inters ++ l)) = (opening ++ (params ++ inters)) ++ l := by
    simp
  obtain ⟨-, hstop⟩ := csiEnd_of_split hparams hinters hrest hhead
  have hbody := le_csiEnd (opening ++ (params ++ (inters ++ byte :: rest))) opening.length
  generalize csiEnd (opening ++ (params ++ (inters ++ byte :: rest))) opening.length = stop at hstop hbody ⊢
  refine ⟨?_, fun after hafter => ?_⟩
  · rw [hstop]
    simp only [List.length_append, List.length_cons]
    split <;> omega
  have hfront := @introducer_front _ _ hintroducer stop hbody after
  obtain ⟨behind, htake, hbyte, hfinal⟩ : ∃ behind, (opening ++ (params ++ (inters ++ byte :: rest))).take stop ++
      after = opening ++ (params ++ (inters ++ behind)) ∧ (∀ c, behind.head? = some c → c = byte) ∧
      behind.head?.any isFinal = isFinal byte := by
    by_cases hfinal : isFinal byte
    · refine ⟨byte :: after, ?_, by simp [eq_comm], by simp⟩
      rw [hstop, hassoc, hassoc, List.head?_cons, Option.any_some, if_pos hfinal, List.take_length_add_append]
      simp
    · rw [List.head?_cons, Option.any_some, if_neg hfinal, Nat.add_zero] at hstop
      rw [hstop, hassoc] at hafter ⊢
      have hhead : ∀ c, after.head? = some c → c = byte := by
        rcases hafter with hnil | hhead
        · simp at hnil
        · intro c hc
          simpa [eq_comm] using hhead c hc
      refine ⟨after, by rw [List.take_left, hassoc], hhead, ?_⟩
      cases after with
      | nil => simp [hfinal]
      | cons c after => simp [hhead c rfl]
  have hagain := (@csiEnd_of_split opening params inters behind hparams hinters
    (fun c hc => hrest c (by simpa [eq_comm] using hbyte c hc)) ?_).2
  · rw [sequenceEnd, hfront, htake]
    simp only
    rw [hagain, hfinal, hstop, List.head?_cons, Option.any_some]
  · cases inters with
    | nil => exact fun c hc => hhead c (by simpa [eq_comm] using hbyte c hc)
    | cons first others => simpa using hhead

theorem string_endsAt (hintroducer : introducer bytes = some (.string body))
    (hstring : stringSequenceEnd bytes body .lenient = some sequence) (hfits : sequence.seqEnd ≤ bytes.length)
    (hcut : bytes[sequence.bodyEnd]? = some esc → sequence.seqEnd ≠ bytes.length) :
    EndsAt bytes sequence.seqEnd := by
  refine ⟨hfits, fun after hafter => ?_⟩
  have hbody := (body_fits hintroducer).2
  have hle := le_stringSequenceEnd hstring
  have hfront := @introducer_front bytes _ hintroducer sequence.seqEnd hle after
  have hdrop : (bytes.take sequence.seqEnd ++ after).drop body =
      (bytes.drop body).take (sequence.seqEnd - body) ++ after := by
    rw [List.drop_append_of_le_length (by simp; omega), List.drop_take]
  have hlen : (bytes.take sequence.seqEnd ++ after).length =
      body + ((bytes.drop body).take (sequence.seqEnd - body) ++ after).length := by
    simp only [List.length_append, List.length_take, List.length_drop]
    omega
  rw [sequenceEnd, hfront]
  simp only
  rw [stringSequenceEnd, hdrop, hlen, stringEnd_front hstring]
  · intro hesc hall
    rw [List.length_drop] at hall
    rw [List.getElem?_drop, Nat.add_sub_cancel' (le_bodyEnd hstring)] at hesc
    exact hcut hesc (by omega)
  · simpa [Follows, Nat.add_sub_cancel' hle] using hafter

/-- A complete sequence ends in the same place in front of other bytes. -/
theorem sequence_front (h : completeSequenceEnd front bytes = .ok (some stop)) : EndsAt bytes stop := by
  have hend := sequenceEnd_of_complete h
  cases hintroducer : introducer bytes with
  | none =>
    simp only [completeSequenceEnd, hintroducer] at h
    split at h <;> cases h
  | some introduced =>
    cases introduced with
    | csi body =>
      simp only [sequenceEnd, hintroducer, Option.some.injEq] at hend
      obtain ⟨opening, params, inters, rest, rfl, rfl, hparams, hinters, hrest, hhead⟩ :=
        exists_split bytes (body_fits hintroducer).2
      cases rest with
      | nil =>
        -- what ran to the end is complete by a final byte alone
        obtain ⟨hat, hstop⟩ := csiEnd_of_split hparams hinters hrest hhead
        rw [hend] at hstop
        simp only [completeSequenceEnd, hintroducer] at h
        cases hcomplete : completeCsiEnd front (opening ++ (params ++ (inters ++ []))) opening.length with
        | none => simp only [hcomplete, Option.elim_none, reduceCtorEq] at h
        | some stop' =>
          simp only [completeCsiEnd, hend] at hcomplete
          split_ifs at hcomplete with hlt hfits
          · simp [hstop] at hlt
          · obtain ⟨csi, hcsi, -⟩ := Option.map_eq_some_iff.mp hcomplete
            have := (parseCsi_front (by omega) hcsi).2
            rw [hat] at this
            cases this
      | cons byte rest => exact hend ▸ csi_endsAt hintroducer hparams hinters hrest hhead
    | string body =>
      cases hstring : stringSequenceEnd bytes body .lenient with
      | none => simp [completeSequenceEnd, hintroducer, hstring] at h
      | some sequence =>
        simp only [completeSequenceEnd, hintroducer, hstring] at h
        cases hready : decide (sequence.seqEnd ≤ bytes.length) && !cutEscape bytes sequence with
        | false => simp [Option.filter, hready] at h
        | true =>
          obtain rfl : sequence.seqEnd = stop := by simpa [Option.filter, hready] using h
          simp only [Bool.and_eq_true, decide_eq_true_eq, Bool.not_eq_true', cutEscape, Bool.and_eq_false_iff,
            decide_eq_false_iff_not] at hready
          refine string_endsAt hintroducer hstring hready.1 fun hesc hall => ?_
          exact hready.2.elim (fun h => h hesc) fun h => h hall
    | charset designator =>
      simp only [completeSequenceEnd, hintroducer] at h
      split at h
      · cases h
        refine ⟨‹_›, fun after _ => ?_⟩
        have := @introducer_front bytes _ hintroducer (designator + 1) (Nat.le_succ _) after
        rw [sequenceEnd, this]
        simp
        omega
      · cases h
    | escaped stop' =>
      simp only [completeSequenceEnd, hintroducer] at h
      cases h
      refine ⟨?_, fun after _ => ?_⟩
      · exact (body_fits hintroducer).2
      · have := @introducer_front bytes _ hintroducer stop (Nat.le_refl _) after
        rw [sequenceEnd, this]

/-! ## The text of a buffer, a sequence at a time -/

theorem plain_plain (h : isPlain byte) (rest : List UInt8) : plain (byte :: rest) = byte :: plain rest := by
  have hwidth : ∀ {b}, isPlain b → utf8Width b = none := fun h => by
    simp only [isPlain, Bool.and_eq_true] at h
    simpa using h.2
  have hrun : ∀ {b} (bs : List UInt8), isPlain b →
      plain (b :: bs) = (b :: bs).takeWhile isPlain ++ plain ((b :: bs).drop ((b :: bs).takeWhile isPlain).length) := by
    intro b bs hb
    rw [plain]
    split
    · simp_all
    · rw [if_pos hb]
  rw [hrun rest h, List.takeWhile_cons_of_pos h]
  cases rest with
  | nil => simp
  | cons next others =>
    by_cases hnext : isPlain next
    · rw [hrun others hnext]
      simp
    · simp [hnext]

theorem plain_codepoint {width : Nat} (h : utf8Width byte = some width) {rest : List UInt8}
    (hfits : width ≤ (byte :: rest).length) (after : List UInt8) :
    plain ((byte :: rest).take width ++ after) = copyCodepoint ((byte :: rest).take width) ++ plain after := by
  have hlen : ((byte :: rest).take width).length = width := by simpa using hfits
  obtain ⟨k, rfl⟩ : ∃ k, width = k + 1 := ⟨width - 1, by have := two_le_utf8Width h; omega⟩
  rw [List.take_succ_cons] at hlen ⊢
  rw [List.cons_append, plain]
  split
  · obtain rfl : k + 1 = _ := Option.some_inj.mp (h.symm.trans ‹_›)
    rw [← List.cons_append, List.take_left' hlen, List.drop_left' hlen]
  · simp_all

theorem not_plain_of_complete {rest : List UInt8}
    (h : completeSequenceEnd front (byte :: rest) = .ok (some stop)) : isPlain byte = false := by
  have hbyte : byte = c1Csi ∨ byte = c1Osc ∨ byte = esc := by
    by_contra hother
    simp only [not_or] at hother
    have hnone : introducer (byte :: rest) = none := by simp [introducer, hother]
    simp [completeSequenceEnd, hnone, hother] at h
  rcases hbyte with rfl | rfl | rfl <;> decide

theorem plain_of_complete {rest : List UInt8} (hwidth : utf8Width byte = none)
    (h : completeSequenceEnd front (byte :: rest) = .ok none) : isPlain byte := by
  have helim : ∀ {α : Type} (o : Option α) (f : α → Nat),
      o.elim (.error ()) (fun x => .ok (some (f x))) ≠ (.ok none : Except Unit (Option Nat)) := by
    intro α o f
    cases o <;> simp
  unfold completeSequenceEnd at h
  cases hintroducer : introducer (byte :: rest) with
  | none =>
    rw [hintroducer] at h
    have hesc : byte ≠ esc := by
      rintro rfl
      simp at h
    simp only [introducer] at hintroducer
    split_ifs at hintroducer with hcsi hosc
    simp [isPlain, hwidth, hesc, hcsi, hosc]
  | some introduced =>
    rw [hintroducer] at h
    cases introduced with
    | csi body => exact absurd h (helim _ _)
    | string body => exact absurd h (helim _ _)
    | charset designator =>
      simp only at h
      split at h <;> cases h
    | escaped stop => cases h

theorem plain_sequence {rest : List UInt8} (hwidth : utf8Width byte = none)
    (hplain : isPlain byte = false) (h : sequenceEnd (byte :: rest) = some stop) :
    plain (byte :: rest) = plain ((byte :: rest).drop stop) := by
  rw [plain]
  split
  · simp_all
  · rw [if_neg (by simp [hplain])]
    split <;> simp_all

/-! ## Ready and held back -/

/-- What a loop turn passes over gives the same text in front of whatever
can follow it. -/
theorem plain_front {k : Nat} (out : List UInt8)
    (h : ∀ after, Follows bytes stop after → plain (bytes.take stop ++ after) = out ++ plain after)
    (hrest : ∀ more, plain (bytes.drop stop ++ more) =
      plain ((bytes.drop stop).take k) ++ plain ((bytes.drop stop).drop k ++ more)) (more : List UInt8) :
    plain (bytes ++ more) = plain (bytes.take (stop + k)) ++ plain (bytes.drop (stop + k) ++ more) := by
  calc plain (bytes ++ more) = plain (bytes.take stop ++ (bytes.drop stop ++ more)) := by
        rw [← List.append_assoc, List.take_append_drop]
    _ = out ++ plain (bytes.drop stop ++ more) := h _ (follows_append more)
    _ = (out ++ plain ((bytes.drop stop).take k)) ++ plain (bytes.drop (stop + k) ++ more) := by
        rw [hrest, List.drop_drop, List.append_assoc]
    _ = plain (bytes.take (stop + k)) ++ plain (bytes.drop (stop + k) ++ more) := by
        rw [List.take_add, h _ (follows_take k)]

theorem plain_ready (front bytes : List UInt8) :
    ∃ k ≤ bytes.length, holdbackFrom front bytes = front.length + k ∧
      ∀ more, plain (bytes ++ more) = plain (bytes.take k) ++ plain (bytes.drop k ++ more) := by
  have hnone : ∀ bytes : List UInt8, ∀ more, plain (bytes ++ more) = plain (bytes.take 0) ++ plain (bytes.drop 0 ++ more) := by
    intro bytes more
    simp [plain]
  fun_induction holdbackFrom front bytes with
  | case1 front => exact ⟨0, by simp, rfl, hnone _⟩
  | case2 front byte rest width hwidth hlong => exact ⟨0, by simp, rfl, hnone _⟩
  | case3 front byte rest width hwidth hfits ih =>
    obtain ⟨k, hk, hheld, hready⟩ := ih
    have hfits := Nat.not_lt.mp hfits
    simp only [List.length_drop, List.length_append, List.length_take] at hk hheld
    refine ⟨width + k, by omega, by omega, ?_⟩
    exact plain_front _ (fun after _ => plain_codepoint hwidth hfits after) hready
  | case4 front byte rest hwidth stop hsequence ih =>
    obtain ⟨k, hk, hheld, hready⟩ := ih
    obtain ⟨hfits, hfront⟩ := sequence_front hsequence
    have hplain := not_plain_of_complete hsequence
    have hpos := sequenceEnd_pos (sequenceEnd_of_complete hsequence) (List.cons_ne_nil _ _)
    have hlen : ((byte :: rest).take stop).length = stop := by simpa using hfits
    simp only [List.length_drop, List.length_append, hlen] at hk hheld
    refine ⟨stop + k, by omega, by omega, plain_front [] (fun after hafter => ?_) hready⟩
    have hend := hfront after hafter
    obtain ⟨j, rfl⟩ : ∃ j, stop = j + 1 := ⟨stop - 1, by omega⟩
    rw [List.take_succ_cons] at hlen hend ⊢
    rw [List.cons_append] at hend ⊢
    rw [plain_sequence hwidth hplain hend, ← List.cons_append, List.drop_left' hlen, List.nil_append]
  | case5 front byte rest hwidth hsequence ih =>
    obtain ⟨k, hk, hheld, hready⟩ := ih
    have hplain := plain_of_complete hwidth hsequence
    simp only [List.length_append, List.length_singleton] at hheld
    refine ⟨1 + k, by simp; omega, by omega, plain_front [byte] (fun after _ => ?_) hready⟩
    exact plain_plain hplain after
  | case6 front byte rest hwidth hsequence => exact ⟨0, by simp, rfl, hnone _⟩

/-! ## A stream in chunks -/

/-- The text of a stream that comes in chunks, what is held back put in
front of the next one and stripped as it is at the end. -/
def streamed (held : List UInt8) : (chunks : List (List UInt8)) → List UInt8
  | [] => plain held
  | chunk :: chunks =>
    let buffer := held ++ chunk
    plain (buffer.take (holdbackStart buffer)) ++ streamed (buffer.drop (holdbackStart buffer)) chunks

theorem streamed_eq (held : List UInt8) (chunks : List (List UInt8)) :
    streamed held chunks = plain (held ++ chunks.flatten) := by
  induction chunks generalizing held with
  | nil => simp [streamed]
  | cons chunk chunks ih =>
    obtain ⟨k, -, hheld, hready⟩ := plain_ready [] (held ++ chunk)
    rw [List.length_nil, Nat.zero_add] at hheld
    rw [streamed, holdbackStart, hheld, ih, List.flatten_cons, ← List.append_assoc, ← hready]

/-- However a stream is cut, its text comes out. -/
theorem streaming_plain (chunks : List (List UInt8)) : streamed [] chunks = plain chunks.flatten :=
  streamed_eq [] chunks

end SlopDesk.Sanitize
