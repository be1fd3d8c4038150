/-
SlopDesk.Sanitize.Sequences — the sequences the replay passes step over.

Every pass walks its bytes alike: a byte, a `CSI`, a string sequence or an
escape of two bytes at a time, up to a sequence that is cut short. `tokens`
is that walk. A sequence that was found once is found again in front of any
bytes (`parseCsi_spelled`, `stringEndFrom_front`), so tokens of which some
are taken out are the tokens of the bytes that are left (`tokens_raws`).
-/
import Mathlib.Data.List.TakeWhile
import SlopDesk.Sanitize.VtScan

namespace SlopDesk.Sanitize

variable {csi : Csi} {bytes after : List UInt8} {seq : StringSequence} {t : Terminators} {ts : List Token}

/-! ## A sequence in front of any bytes -/

/-- The bytes of a sequence. -/
def Csi.spelled (csi : Csi) : List UInt8 :=
  esc :: 0x5B :: (csi.params ++ (csi.intermediates ++ [csi.finalByte]))

/-- A sequence as a scan from the first byte finds it. -/
structure Csi.Scanned (csi : Csi) : Prop where
  params : ∀ b ∈ csi.params, isParam b
  intermediates : ∀ b ∈ csi.intermediates, isIntermediate b
  finalByte : isFinal csi.finalByte
  stop : csi.stop = csi.spelled.length

theorem not_isParam_of_isIntermediate {b : UInt8} (h : isIntermediate b) : ¬ isParam b := by
  simp only [isIntermediate, isParam, Bool.and_eq_true, decide_eq_true_eq, UInt8.le_iff_toNat_le] at h ⊢
  have := h.2
  simp at this ⊢
  omega

theorem not_of_isFinal {b : UInt8} (h : isFinal b) : ¬ isParam b ∧ ¬ isIntermediate b := by
  simp only [isFinal, isIntermediate, isParam, Bool.and_eq_true, decide_eq_true_eq, UInt8.le_iff_toNat_le] at h ⊢
  have := h.1
  simp at this ⊢
  omega

theorem takeWhile_front {p : UInt8 → Bool} {front behind : List UInt8} (hfront : ∀ b ∈ front, p b)
    (hbehind : ∀ b ∈ behind.head?, ¬ p b) : (front ++ behind).takeWhile p = front := by
  rw [List.takeWhile_append_of_pos hfront]
  cases behind with
  | nil => simp
  | cons b behind => simp [hbehind b (by simp)]

theorem parseCsi_spelled (h : csi.Scanned) (after : List UInt8) :
    parseCsi (csi.spelled ++ after) 0 = some csi := by
  obtain ⟨params, intermediates, finalByte, stop⟩ := csi
  obtain ⟨hparams, hinters, hfinal, hstop⟩ := h
  simp only at hparams hinters hfinal
  have hp : (params ++ (intermediates ++ finalByte :: after)).takeWhile isParam = params := by
    refine takeWhile_front hparams fun b hb => ?_
    cases intermediates with
    | nil =>
      obtain rfl : finalByte = b := by simpa using hb
      exact (not_of_isFinal hfinal).1
    | cons first others =>
      obtain rfl : first = b := by simpa using hb
      exact not_isParam_of_isIntermediate (hinters _ (by simp))
  have hi : (intermediates ++ finalByte :: after).takeWhile isIntermediate = intermediates := by
    refine takeWhile_front hinters fun b hb => ?_
    obtain rfl : finalByte = b := by simpa using hb
    exact (not_of_isFinal hfinal).2
  simp only [Csi.spelled, List.length_cons, List.length_append, List.length_nil] at hstop
  have hdrop : (esc :: 0x5B :: (params ++ (intermediates ++ finalByte :: after))).drop (2 + params.length) =
      intermediates ++ finalByte :: after := by
    rw [Nat.add_comm]
    simp
  have hat : (esc :: 0x5B :: (params ++ (intermediates ++ finalByte :: after)))[2 + params.length +
      intermediates.length]? = some finalByte := by
    rw [← List.getElem?_drop, hdrop]
    simp
  simp [parseCsi, Csi.spelled, hp, hi, hdrop, hat, hfinal]
  omega

theorem parseCsi_eq_some {tail : List UInt8} (h : parseCsi (esc :: 0x5B :: tail) 0 = some csi) :
    csi.Scanned ∧ ∃ after, esc :: 0x5B :: tail = csi.spelled ++ after := by
  obtain ⟨rest, hrest⟩ : ∃ rest, tail = tail.takeWhile isParam ++ rest :=
    ⟨tail.dropWhile isParam, by simp⟩
  generalize hparams : tail.takeWhile isParam = params at hrest
  have hall : ∀ b ∈ params, isParam b := fun b hb => List.mem_takeWhile_imp (hparams ▸ hb)
  obtain ⟨last, hlast⟩ : ∃ last, rest = rest.takeWhile isIntermediate ++ last :=
    ⟨rest.dropWhile isIntermediate, by simp⟩
  generalize hinters : rest.takeWhile isIntermediate = inters at hlast
  have halls : ∀ b ∈ inters, isIntermediate b := fun b hb => List.mem_takeWhile_imp (hinters ▸ hb)
  have hdrop : (esc :: 0x5B :: tail).drop (2 + params.length) = rest := by
    rw [Nat.add_comm, hrest]
    simp
  have hat : (esc :: 0x5B :: tail)[2 + params.length + inters.length]? = last.head? := by
    rw [← List.getElem?_drop, hdrop, hlast]
    rw [List.getElem?_append_right (Nat.le_refl _), Nat.sub_self, List.head?_eq_getElem?]
  simp only [parseCsi, Nat.zero_add, List.drop_succ_cons, List.drop_zero, hparams, hdrop, hinters, hat] at h
  cases last with
  | nil => simp at h
  | cons finalByte after =>
    simp only [List.head?_cons] at h
    split at h
    · cases h
      refine ⟨⟨hall, halls, ‹_›, ?_⟩, after, ?_⟩
      · simp only [Csi.spelled, List.length_cons, List.length_append, List.length_nil]
        omega
      · simp [Csi.spelled, hrest, hlast]
    · cases h

theorem stringEndFrom_le :
    ∀ {j : Nat}, stringEndFrom t j bytes = some seq → seq.seqEnd ≤ j + bytes.length := by
  induction bytes with
  | nil => simp [stringEndFrom]
  | cons byte rest ih =>
    intro j h
    have hnext : stringEndFrom t (j + 1) rest = some seq → seq.seqEnd ≤ j + (byte :: rest).length := fun h => by
      have := ih h
      simp only [List.length_cons]
      omega
    rw [stringEndFrom] at h
    split_ifs at h with _ _ _ hst
    case pos =>
      cases h
      simp
    case pos =>
      cases h
      simp
    case pos =>
      cases h
      obtain ⟨others, rfl⟩ := List.head?_eq_some_iff.mp hst
      simp
    case pos =>
      cases h
      simp
    all_goals exact hnext h

theorem head_of_aborted {j : Nat} (h : stringEndFrom t j bytes = some seq) (hat : seq.seqEnd = j) :
    ∃ c, bytes.head? = some c ∧ c ≠ esc := by
  cases bytes with
  | nil => simp [stringEndFrom] at h
  | cons byte rest =>
    refine ⟨byte, rfl, ?_⟩
    rintro rfl
    rw [stringEndFrom] at h
    have hnext : stringEndFrom t (j + 1) rest ≠ some seq := fun h => by
      have := le_stringEndFrom h
      omega
    split_ifs at h
    all_goals first
      | exact hnext h
      | exact absurd ‹esc = can ∨ esc = sub› (by decide)
      | (cases h; simp at hat)

/-- A string sequence ends alike in front of other bytes, as long as these
begin with the byte that aborted it. -/
theorem stringEndFrom_front (hbare : t.bareEsc = false) :
    ∀ {j : Nat}, stringEndFrom t j bytes = some seq → ∀ after : List UInt8,
      (∀ c, c ≠ esc → (bytes.drop (seq.seqEnd - j)).head? = some c → after.head? = some c) →
      stringEndFrom t j (bytes.take (seq.seqEnd - j) ++ after) = some seq := by
  induction bytes with
  | nil => simp [stringEndFrom]
  | cons byte rest ih =>
    intro j h after hafter
    rw [stringEndFrom] at h
    by_cases habort : byte = can ∨ byte = sub
    · rw [if_pos habort] at h
      cases h
      have hne : byte ≠ esc := by rcases habort with rfl | rfl <;> decide
      obtain ⟨others, rfl⟩ : ∃ others, after = byte :: others := by
        simpa [List.head?_eq_some_iff] using hafter byte hne (by simp)
      simp [stringEndFrom, habort]
    rw [if_neg habort] at h
    by_cases hend : (t.bel ∧ byte = bel) ∨ (t.c1St ∧ byte = c1St)
    · rw [if_pos hend] at h
      cases h
      simp [stringEndFrom, habort, hend]
    rw [if_neg hend] at h
    -- where the scan goes on, the next byte is the same in front of `after`
    have hgo : stringEndFrom t (j + 1) rest = some seq →
        ∃ k, seq.seqEnd - j = k + 1 ∧ stringEndFrom t (j + 1) (rest.take k ++ after) = some seq ∧
          (rest.take k ++ after).head? = rest.head? := by
      intro hnext
      have hle := le_stringEndFrom hnext
      have hafter' : ∀ c, c ≠ esc → (rest.drop (seq.seqEnd - (j + 1))).head? = some c → after.head? = some c := by
        intro c hc hhead
        refine hafter c hc ?_
        rwa [show seq.seqEnd - j = seq.seqEnd - (j + 1) + 1 by omega, List.drop_succ_cons]
      refine ⟨seq.seqEnd - (j + 1), by omega, ih hnext after hafter', ?_⟩
      by_cases hat : seq.seqEnd = j + 1
      · obtain ⟨c, hhead, hc⟩ := head_of_aborted hnext hat
        simpa [hat, hhead] using hafter' c hc (by simpa [hat] using hhead)
      · cases rest with
        | nil => simp [stringEndFrom] at hnext
        | cons first others =>
          obtain ⟨k, hk⟩ : ∃ k, seq.seqEnd - (j + 1) = k + 1 := ⟨seq.seqEnd - (j + 2), by omega⟩
          simp [hk]
    by_cases hesc : byte = esc
    · rw [if_pos hesc, hbare] at h
      by_cases hst : rest.head? = some 0x5C
      · rw [if_pos hst] at h
        cases h
        obtain ⟨others, rfl⟩ := List.head?_eq_some_iff.mp hst
        simp [stringEndFrom, hesc, show esc ≠ can by decide, show esc ≠ sub by decide, hesc ▸ hend]
      · rw [if_neg hst, if_neg Bool.false_ne_true] at h
        obtain ⟨k, hk, hrest, hhead⟩ := hgo h
        rw [hk, List.take_succ_cons, List.cons_append, stringEndFrom, if_neg habort, if_neg hend, if_pos hesc,
          hhead, if_neg hst, hbare, if_neg Bool.false_ne_true, hrest]
    · rw [if_neg hesc] at h
      obtain ⟨k, hk, hrest, -⟩ := hgo h
      rw [hk, List.take_succ_cons, List.cons_append, stringEndFrom, if_neg habort, if_neg hend, if_neg hesc, hrest]

theorem bareEsc_replay (belTerminates : Bool) : (Terminators.replay belTerminates).bareEsc = false := by
  cases belTerminates <;> rfl

/-! ## The walk -/

/-- What a pass steps over at once. `cut` is a sequence that does not end,
with everything behind it. -/
inductive Token where
  | byte (byte : UInt8)
  | csi (csi : Csi)
  | string (belTerminates : Bool) (raw : List UInt8)
  | pair (introducer : UInt8)
  | cut (raw : List UInt8)
  deriving DecidableEq

/-- The bytes of a token. -/
def Token.raw : Token → List UInt8
  | .byte b => [b]
  | .csi c => c.spelled
  | .string _ body => body
  | .pair introducer => [esc, introducer]
  | .cut rest => rest

/-- The bytes of tokens. -/
def raws (ts : List Token) : List UInt8 := ts.flatMap Token.raw

@[simp] theorem raws_nil : raws [] = [] := rfl

@[simp] theorem raws_cons (t : Token) (ts : List Token) : raws (t :: ts) = t.raw ++ raws ts := rfl

@[simp] theorem raws_append (ts ts' : List Token) : raws (ts ++ ts') = raws ts ++ raws ts' := by
  simp [raws]

/-- The tokens of bytes. -/
def tokens (bytes : List UInt8) : List Token :=
  match bytes with
  | [] => []
  | [byte] => [.byte byte]
  | byte :: introducer :: tail =>
    if byte ≠ esc then .byte byte :: tokens (introducer :: tail)
    else if introducer = 0x5B then
      match _hcsi : parseCsi (byte :: introducer :: tail) 0 with
      | none => [.cut (byte :: introducer :: tail)]
      | some csi => .csi csi :: tokens ((byte :: introducer :: tail).drop csi.stop)
    else
      match stringIntroducer introducer with
      | some belTerminates =>
        match _hseq : stringSequenceEnd (byte :: introducer :: tail) 2 (.replay belTerminates) with
        | none => [.cut (byte :: introducer :: tail)]
        | some seq =>
          .string belTerminates ((byte :: introducer :: tail).take seq.seqEnd) ::
            tokens ((byte :: introducer :: tail).drop seq.seqEnd)
      | none => .pair introducer :: tokens tail
termination_by bytes.length
decreasing_by
  · simp
  · have := parseCsi_stop_pos ‹_›
    simp only [List.length_drop, List.length_cons]
    omega
  · have := le_stringSequenceEnd ‹_›
    simp only [List.length_drop, List.length_cons]
    omega
  · simp only [List.length_cons]
    omega

/-- A token as it is found in front of these bytes. -/
def Token.Fits (after : List UInt8) : Token → Prop
  | .byte b => b ≠ esc ∨ after = []
  | .csi c => c.Scanned
  | .string belTerminates bytes =>
    ∃ introducer body seq, bytes = esc :: introducer :: body ∧ introducer ≠ 0x5B ∧
      stringIntroducer introducer = some belTerminates ∧ seq.seqEnd = bytes.length ∧
      stringSequenceEnd (bytes ++ after) 2 (.replay belTerminates) = some seq
  | .pair introducer => introducer ≠ 0x5B ∧ stringIntroducer introducer = none
  | .cut rest => after = [] ∧ rest ≠ [] ∧ tokens rest = [.cut rest]

/-- Tokens as they are found one behind another. -/
def Fit : List Token → Prop
  | [] => True
  | t :: ts => t.Fits (raws ts) ∧ Fit ts

theorem tokens_csi (h : csi.Scanned) (after : List UInt8) :
    tokens (csi.spelled ++ after) = .csi csi :: tokens after := by
  have hcsi := parseCsi_spelled h after
  have hdrop : (csi.spelled ++ after).drop csi.stop = after := by
    rw [h.stop, List.drop_left]
  obtain ⟨tail, htail⟩ : ∃ tail, csi.spelled ++ after = esc :: 0x5B :: tail := ⟨_, rfl⟩
  rw [htail] at hcsi hdrop ⊢
  rw [tokens, if_neg (by simp), if_pos rfl]
  split
  · simp_all
  · obtain rfl : csi = _ := Option.some_inj.mp (hcsi.symm.trans ‹_›)
    rw [hdrop]

theorem tokens_cons {t : Token} (h : t.Fits after) : tokens (t.raw ++ after) = t :: tokens after := by
  cases t with
  | byte byte =>
    cases after with
    | nil => simp [Token.raw, tokens]
    | cons introducer tail =>
      have hne : byte ≠ esc := h.resolve_right (List.cons_ne_nil _ _)
      rw [Token.raw, List.singleton_append, tokens, if_pos hne]
  | csi csi => exact tokens_csi h after
  | string belTerminates raw =>
    obtain ⟨introducer, body, seq, rfl, hcsi, hkind, hlen, hend⟩ := h
    have hdrop : (esc :: introducer :: body ++ after).drop seq.seqEnd = after := by
      rw [hlen, List.drop_left]
    have htake : (esc :: introducer :: body ++ after).take seq.seqEnd = esc :: introducer :: body := by
      rw [hlen, List.take_left]
    simp only [List.cons_append] at hend hdrop htake
    simp only [Token.raw, List.cons_append]
    rw [tokens, if_neg (by simp), if_neg hcsi, hkind]
    simp only
    split
    · simp_all
    · obtain rfl : seq = _ := Option.some_inj.mp (hend.symm.trans ‹_›)
      rw [hdrop, htake]
  | pair introducer =>
    obtain ⟨hcsi, hkind⟩ := h
    simp only [Token.raw, List.cons_append, List.nil_append]
    rw [tokens, if_neg (by simp), if_neg hcsi, hkind]
  | cut raw =>
    obtain ⟨rfl, -, hcut⟩ := h
    simp only [Token.raw, List.append_nil, hcut, tokens]

/-- Tokens that fit are the tokens of their bytes. -/
theorem tokens_raws (h : Fit ts) : tokens (raws ts) = ts := by
  induction ts with
  | nil => simp [tokens]
  | cons t ts ih => rw [raws_cons, tokens_cons h.1, ih h.2]

/-- The tokens of bytes fit, and nothing is left out. -/
theorem fit_tokens (bytes : List UInt8) : raws (tokens bytes) = bytes ∧ Fit (tokens bytes) := by
  fun_induction tokens bytes with
  | case1 => exact ⟨rfl, trivial⟩
  | case2 byte => exact ⟨rfl, .inr rfl, trivial⟩
  | case3 byte introducer tail hne ih =>
    exact ⟨by simp [Token.raw, ih.1], .inl hne, ih.2⟩
  | case4 byte tail hesc hcsi =>
    obtain rfl : byte = esc := not_not.mp hesc
    refine ⟨by simp [Token.raw], ⟨rfl, by simp, ?_⟩, trivial⟩
    rw [tokens, if_neg (by simp), if_pos rfl]
    split <;> simp_all
  | case5 byte tail hesc csi hcsi ih =>
    obtain rfl : byte = esc := not_not.mp hesc
    obtain ⟨hscanned, after, hafter⟩ := parseCsi_eq_some hcsi
    have hdrop : (csi.spelled ++ after).drop csi.stop = after := by
      rw [hscanned.stop, List.drop_left]
    rw [hafter, hdrop] at ih ⊢
    exact ⟨by simp [Token.raw, ih.1], hscanned, ih.2⟩
  | case6 byte introducer tail hesc hcsi bel hkind hseq =>
    obtain rfl : byte = esc := not_not.mp hesc
    refine ⟨by simp [Token.raw], ⟨rfl, by simp, ?_⟩, trivial⟩
    rw [tokens, if_neg (by simp), if_neg hcsi, hkind]
    simp only
    split <;> simp_all
  | case7 byte introducer tail hesc hcsi bel hkind seq hseq ih =>
    obtain rfl : byte = esc := not_not.mp hesc
    have hle := le_stringSequenceEnd hseq
    have hlen := stringEndFrom_le hseq
    simp only [List.drop_succ_cons, List.drop_zero] at hlen
    obtain ⟨k, hk⟩ : ∃ k, seq.seqEnd = k + 2 := ⟨seq.seqEnd - 2, by omega⟩
    refine ⟨by simp [Token.raw, ih.1], ⟨introducer, tail.take k, seq, by simp [hk], hcsi, hkind, ?_, ?_⟩, ih.2⟩
    · simp only [List.length_take, List.length_cons]
      omega
    · rw [ih.1, List.take_append_drop]
      exact hseq
  | case8 byte introducer tail hesc hcsi hkind ih =>
    obtain rfl : byte = esc := not_not.mp hesc
    exact ⟨by simp [Token.raw, ih.1], ⟨hcsi, hkind⟩, ih.2⟩

/-! ## Tokens with others taken out -/

/-- Bytes that can stand behind a token in place of others. -/
structure Replaces (after after' : List UInt8) : Prop where
  nil : after = [] → after' = []
  head : ∀ c, c ≠ esc → after.head? = some c → after'.head? = some c

theorem Token.Fits.replaced {t : Token} {after' : List UInt8} (h : t.Fits after)
    (hreplaces : Replaces after after') : t.Fits after' := by
  cases t with
  | byte byte => exact h.imp_right hreplaces.nil
  | csi csi => exact h
  | string belTerminates raw =>
    obtain ⟨introducer, body, seq, rfl, hcsi, hkind, hlen, hend⟩ := h
    refine ⟨introducer, body, seq, rfl, hcsi, hkind, hlen, ?_⟩
    have hbody : seq.seqEnd - 2 = body.length := by
      rw [hlen]
      simp
    have := stringEndFrom_front (bareEsc_replay belTerminates) hend after' ?_
    · simpa [stringSequenceEnd, hbody] using this
    · simpa [hbody] using hreplaces.head
  | pair introducer => exact h
  | cut raw => exact ⟨hreplaces.nil h.1, h.2⟩

theorem Token.Fits.raw_ne_nil {t : Token} (h : t.Fits after) : t.raw ≠ [] := by
  cases t with
  | byte byte => exact List.cons_ne_nil _ _
  | csi csi => exact List.cons_ne_nil _ _
  | string belTerminates raw =>
    obtain ⟨introducer, body, seq, rfl, -⟩ := h
    exact List.cons_ne_nil _ _
  | pair introducer => exact List.cons_ne_nil _ _
  | cut raw => exact h.2.1

/-- In place of a sequence's bytes anything can stand. -/
theorem Replaces.of_esc (bytes after' : List UInt8) : Replaces (esc :: bytes) after' :=
  ⟨by simp, fun c hc h => absurd (by simpa [eq_comm] using h) hc⟩

theorem Replaces.append {t : Token} (h : t.Fits after) (after' : List UInt8) :
    Replaces (t.raw ++ after) (t.raw ++ after') := by
  obtain ⟨first, others, hraw⟩ := List.exists_cons_of_ne_nil h.raw_ne_nil
  exact ⟨by simp [hraw], by simp [hraw]⟩

/-- What stands behind tokens can be replaced. -/
theorem fit_append {rest rest' : List Token} (h : Fit (ts ++ rest)) (hrest : Fit rest')
    (hreplaces : Replaces (raws rest) (raws rest')) :
    Fit (ts ++ rest') ∧ Replaces (raws (ts ++ rest)) (raws (ts ++ rest')) := by
  induction ts with
  | nil => exact ⟨hrest, hreplaces⟩
  | cons t ts ih =>
    obtain ⟨hfit, hfits⟩ := ih h.2
    exact ⟨⟨h.1.replaced hfits, hfit⟩, .append h.1 _⟩

theorem fit_drop {rest : List Token} (h : Fit (ts ++ rest)) : Fit rest := by
  induction ts with
  | nil => exact h
  | cons t ts ih => exact ih h.2

end SlopDesk.Sanitize
