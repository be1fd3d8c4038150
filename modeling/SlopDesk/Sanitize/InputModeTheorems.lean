/-
SlopDesk.Sanitize.InputModeTheorems — the two loops agree, and what they
leave is settled.

The loop of `strip` is a loop over tokens (`stripFrom_eq`). What `process`
keeps or writes it leaves alone from any state (`process_kept`,
`process_written`): stripping the stripped bytes walks tokens again and does
nothing at them (`stripTokens_settled`).
-/
import SlopDesk.Base.Fields
import SlopDesk.Sanitize.InputMode
import SlopDesk.Sanitize.Sequences

namespace SlopDesk.Sanitize

open SlopDesk.Base InputModeFinalState

variable {csi : Csi} {state : InputModeFinalState} {n : Nat}
variable {act : InputModeFinalState → Nat → InputModeFinalState} {out : List UInt8} {mode : Nat}
variable {flags : Flags}

/-! ## The two loops -/

theorem finalFrom_eq (state : InputModeFinalState) (bytes : List UInt8) :
    finalFrom state bytes = (stripFrom state bytes).2 := by
  fun_induction stripFrom state bytes with
  | case1 state => rw [finalFrom]
  | case2 state byte => rw [finalFrom]
  | case3 state byte introducer tail hne out final hstrip ih =>
    rw [finalFrom, if_pos hne, ih, hstrip]
  | case4 state byte tail hesc hcsi =>
    rw [finalFrom, if_neg hesc, if_pos rfl]
    split <;> simp_all
  | case5 state byte tail hesc csi rewritten state' hprocess out final hcsi hstrip ih =>
    rw [finalFrom, if_neg hesc, if_pos rfl]
    split <;> simp_all
  | case6 state byte introducer tail hesc hcsi bel hkind hseq =>
    rw [finalFrom, if_neg hesc, if_neg hcsi, hkind]
    simp only
    split <;> simp_all
  | case7 state byte introducer tail hesc hcsi bel hkind seq hseq out final hstrip ih =>
    rw [finalFrom, if_neg hesc, if_neg hcsi, hkind]
    simp only
    split <;> simp_all
  | case8 state byte introducer tail hesc hcsi hkind out final hstrip ih =>
    rw [finalFrom, if_neg hesc, if_neg hcsi, hkind]
    simp only
    rw [ih, hstrip]

/-- What the loop of `strip` writes for a token, and the state behind it. -/
def stripToken (state : InputModeFinalState) : Token → List UInt8 × InputModeFinalState
  | .csi csi => ((process csi state).1.getD csi.spelled, (process csi state).2)
  | t => (t.raw, state)

/-- The loop of `strip` over the tokens it steps over. -/
def stripTokens (state : InputModeFinalState) : List Token → List UInt8 × InputModeFinalState
  | [] => ([], state)
  | t :: ts =>
    ((stripToken state t).1 ++ (stripTokens (stripToken state t).2 ts).1, (stripTokens (stripToken state t).2 ts).2)

theorem stripFrom_eq (state : InputModeFinalState) (bytes : List UInt8) :
    stripFrom state bytes = stripTokens state (tokens bytes) := by
  fun_induction stripFrom state bytes with
  | case1 state => simp [tokens, stripTokens]
  | case2 state byte => simp [tokens, stripTokens, stripToken, Token.raw]
  | case3 state byte introducer tail hne out final hstrip ih =>
    rw [tokens, if_pos hne]
    simp [stripTokens, stripToken, Token.raw, ← ih, hstrip]
  | case4 state byte tail hesc hcsi =>
    rw [tokens, if_neg hesc, if_pos rfl]
    split
    · simp [stripTokens, stripToken, Token.raw]
    · simp_all
  | case5 state byte tail hesc csi rewritten state' hprocess out final hcsi hstrip ih =>
    obtain rfl : byte = esc := not_not.mp hesc
    obtain ⟨hscanned, after, hafter⟩ := parseCsi_eq_some hcsi
    rw [hafter, hscanned.stop, List.drop_left] at hstrip ih
    rw [hafter, tokens_csi hscanned, hscanned.stop, List.take_left]
    simp [stripTokens, stripToken, hprocess, ← ih, hstrip]
  | case6 state byte introducer tail hesc hcsi bel hkind hseq =>
    rw [tokens, if_neg hesc, if_neg hcsi, hkind]
    simp only
    split
    · simp [stripTokens, stripToken, Token.raw]
    · simp_all
  | case7 state byte introducer tail hesc hcsi bel hkind seq hseq out final hstrip ih =>
    rw [tokens, if_neg hesc, if_neg hcsi, hkind]
    simp only
    split
    · simp_all
    · obtain rfl : seq = _ := Option.some_inj.mp (hseq.symm.trans ‹_›)
      simp [stripTokens, stripToken, Token.raw, ← ih, hstrip]
  | case8 state byte introducer tail hesc hcsi hkind out final hstrip ih =>
    rw [tokens, if_neg hesc, if_neg hcsi, hkind]
    simp [stripTokens, stripToken, Token.raw, ← ih, hstrip, not_not.mp hesc]

theorem stripFrom_spelled (h : csi.Scanned) (state : InputModeFinalState) (after : List UInt8) :
    (stripFrom state (csi.spelled ++ after)).2 = (stripFrom (process csi state).2 after).2 := by
  rw [stripFrom_eq, stripFrom_eq, tokens_csi h]
  rfl

/-! ## What `process` leaves -/

/-- The final bytes whose private sequences are rewritten. -/
def rewrittenFinals : List UInt8 := [0x68, 0x6C, 0x73, 0x72]

theorem process_cases (csi : Csi) : (∀ state, process csi state = (none, state)) ∨
      (csi.intermediates = [] ∧ csi.finalByte ∈ rewrittenFinals ∧ csi.params.head? = some 0x3F) ∨
      ∀ state, (process csi state).1 = some [] := by
  by_cases hinters : csi.intermediates = []
  · by_cases hfinal : csi.finalByte ∈ rewrittenFinals
    · by_cases hhead : csi.params.head? = some 0x3F
      · exact .inr (.inl ⟨hinters, hfinal, hhead⟩)
      · refine .inl fun state => ?_
        simp only [rewrittenFinals, List.mem_cons, List.not_mem_nil, or_false] at hfinal
        rcases hfinal with h | h | h | h <;> simp [process, hinters, hhead, h]
    · simp only [rewrittenFinals, List.mem_cons, List.not_mem_nil, or_false, not_or] at hfinal
      by_cases hkitty : csi.finalByte = 0x75
      · by_cases hhead : csi.params.head? = some 0x3E ∨ csi.params.head? = some 0x3C ∨ csi.params.head? = some 0x3D
        · refine .inr (.inr fun state => ?_)
          rcases hhead with h | h | h <;> simp [process, hinters, hkitty, h]
        · refine .inl fun state => ?_
          simp only [not_or] at hhead
          simp [process, hinters, hkitty, hhead]
      · exact .inl fun state => by simp [process, hinters, hfinal, hkitty]
  · exact .inl fun state => by simp [process, hinters]

theorem process_private (hinters : csi.intermediates = []) (hfinal : csi.finalByte ∈ rewrittenFinals)
    (hhead : csi.params.head? = some 0x3F) :
    ∃ act, ∀ state, process csi state = rewriteTracked csi state act := by
  simp only [rewrittenFinals, List.mem_cons, List.not_mem_nil, or_false] at hfinal
  rcases hfinal with h | h | h | h <;> exact ⟨_, fun state => by simp [process, hinters, hhead, h]; rfl⟩

theorem rewriteTracked_of_untracked
    (h : ((csi.params.drop 1).splitOn 0x3B).filterMap trackedMode = []) (state : InputModeFinalState)
    (act : InputModeFinalState → Nat → InputModeFinalState) : rewriteTracked csi state act = (none, state) := by
  rw [rewriteTracked, if_pos h, h, List.foldl_nil]

/-- A sequence that was rewritten names no tracked mode. -/
theorem rewriteTracked_written (h : csi.Scanned) (hfinal : csi.finalByte ∈ rewrittenFinals)
    (hout : (rewriteTracked csi state act).1 = some out) :
    out = [] ∨ ∃ written : Csi, written.Scanned ∧ out = written.spelled ∧
      ∀ state, process written state = (none, state) := by
  simp only [rewriteTracked] at hout
  split_ifs at hout with htouched hkept
  · exact .inl (Option.some_inj.mp hout).symm
  · right
    generalize hkeep : ((csi.params.drop 1).splitOn 0x3B).filter (fun field => trackedMode field = none) = kept
      at hout hkept
    have hmem : ∀ field ∈ kept, field ∈ (csi.params.drop 1).splitOn 0x3B ∧ trackedMode field = none := by
      intro field hfield
      simpa [← hkeep] using hfield
    have hsplit : ([0x3B].intercalate kept).splitOn 0x3B = kept :=
      List.splitOn_intercalate 0x3B (fun field hfield hsep =>
        (of_mem_splitOn field (hmem field hfield).1 _ hsep).2 rfl) hkept
    have hparams : ∀ b ∈ (0x3F : UInt8) :: [0x3B].intercalate kept, isParam b := by
      intro b hb
      rcases List.mem_cons.mp hb with rfl | hb
      · decide
      rcases of_mem_intercalate hb with rfl | ⟨field, hfield, hb⟩
      · decide
      · exact h.params b (List.mem_of_mem_drop (of_mem_splitOn field (hmem field hfield).1 b hb).1)
    let written : Csi := ⟨0x3F :: [0x3B].intercalate kept, [], csi.finalByte, ([0x3B].intercalate kept).length + 4⟩
    refine ⟨written, ⟨hparams, by simp [written], h.finalByte, by simp [written, Csi.spelled]⟩, ?_, ?_⟩
    · simpa [written, Csi.spelled] using (Option.some_inj.mp hout).symm
    · intro state
      obtain ⟨act, hact⟩ := @process_private written rfl hfinal rfl
      rw [hact]
      refine rewriteTracked_of_untracked ?_ state act
      rw [List.drop_one, List.tail_cons, hsplit, List.filterMap_eq_nil_iff]
      exact fun field hfield => (hmem field hfield).2

/-- What `process` keeps it keeps from any state. -/
theorem process_kept (h : (process csi state).1 = none) :
    ∀ state, process csi state = (none, state) := by
  rcases process_cases csi with hkept | ⟨hinters, hfinal, hhead⟩ | hgone
  · exact hkept
  · obtain ⟨act, hact⟩ := process_private hinters hfinal hhead
    intro other
    rw [hact] at h ⊢
    refine rewriteTracked_of_untracked ?_ other act
    simp only [rewriteTracked] at h
    split_ifs at h with huntracked
    exact huntracked
  · simp [hgone] at h

/-- What `process` writes it keeps from any state. -/
theorem process_written (hcsi : csi.Scanned) (h : (process csi state).1 = some out) :
    out = [] ∨ ∃ written : Csi, written.Scanned ∧ out = written.spelled ∧
      ∀ state, process written state = (none, state) := by
  rcases process_cases csi with hkept | ⟨hinters, hfinal, hhead⟩ | hgone
  · simp [hkept] at h
  · obtain ⟨act, hact⟩ := process_private hinters hfinal hhead
    exact rewriteTracked_written hcsi hfinal (hact state ▸ h)
  · exact .inl (by simpa [hgone, eq_comm] using h)

/-! ## Stripped bytes -/

/-- What is left of tokens is tokens again, of which nothing is taken out
from any state. -/
theorem stripTokens_settled {ts : List Token} (h : Fit ts) : ∀ state : InputModeFinalState, ∃ left,
    Fit left ∧ raws left = (stripTokens state ts).1 ∧ (∀ other, stripTokens other left = (raws left, other)) ∧
      Replaces (raws ts) (raws left) := by
  induction ts with
  | nil => exact fun state => ⟨[], trivial, rfl, fun other => rfl, ⟨id, fun c _ h => h⟩⟩
  | cons t ts ih =>
    intro state
    cases t with
    | csi csi =>
      obtain ⟨left, hfit, hraws, hleft, hreplaces⟩ := ih h.2 (process csi state).2
      have hfront : ∀ bytes, Replaces (raws (.csi csi :: ts)) bytes := fun bytes => .of_esc _ _
      cases hrewritten : (process csi state).1 with
      | none =>
        have hkept := process_kept hrewritten
        refine ⟨.csi csi :: left, ⟨h.1, hfit⟩, ?_, fun other => ?_, hfront _⟩
        · simp [stripTokens, stripToken, hrewritten, hraws, Token.raw]
        · simp [stripTokens, stripToken, hkept, hleft, Token.raw]
      | some out =>
        rcases process_written h.1 hrewritten with rfl | ⟨written, hwritten, rfl, hkept⟩
        · refine ⟨left, hfit, ?_, hleft, hfront _⟩
          simp [stripTokens, stripToken, hrewritten, hraws]
        · refine ⟨.csi written :: left, ⟨hwritten, hfit⟩, ?_, fun other => ?_, hfront _⟩
          · simp [stripTokens, stripToken, hrewritten, hraws, Token.raw]
          · simp [stripTokens, stripToken, hkept, hleft, Token.raw]
    | byte | string | pair | cut =>
      obtain ⟨left, hfit, hraws, hleft, hreplaces⟩ := ih h.2 state
      refine ⟨_ :: left, ⟨h.1.replaced hreplaces, hfit⟩, ?_, fun other => ?_, .append h.1 _⟩
      · simp [stripTokens, stripToken, hraws]
      · simp [stripTokens, stripToken, hleft]

/-- Stripped bytes are walked without a change, from any state. -/
theorem stripFrom_stripFrom (state other : InputModeFinalState) (bytes : List UInt8) :
    stripFrom other (stripFrom state bytes).1 = ((stripFrom state bytes).1, other) := by
  obtain ⟨left, hfit, hraws, hleft, -⟩ := stripTokens_settled (fit_tokens bytes).2 state
  rw [stripFrom_eq state, ← hraws, stripFrom_eq, tokens_raws hfit, hleft]

/-! ## Numbers in parameters -/

theorem toNat_of_mem_toDigits {digit : Char} (h : digit ∈ Nat.toDigits 10 n) :
    48 ≤ digit.toNat ∧ digit.toNat ≤ 57 ∧ (UInt8.ofNat digit.toNat).toNat = digit.toNat := by
  have hascii := Nat.isDigit_of_mem_toDigits (by decide) (by decide) h
  simp only [Char.isDigit, Bool.and_eq_true, decide_eq_true_eq, ge_iff_le, UInt32.le_iff_toNat_le] at hascii
  have hlow : 48 ≤ digit.toNat := hascii.1
  have hhigh : digit.toNat ≤ 57 := hascii.2
  exact ⟨hlow, hhigh, by rw [UInt8.toNat_ofNat']; omega⟩

theorem isAsciiDigit_of_mem_decimal : ∀ b ∈ decimal n, isAsciiDigit b := by
  intro b hb
  obtain ⟨digit, hdigit, rfl⟩ := List.mem_map.mp hb
  obtain ⟨hlow, hhigh, hbyte⟩ := toNat_of_mem_toDigits hdigit
  simp only [isAsciiDigit, Bool.and_eq_true, decide_eq_true_eq, UInt8.le_iff_toNat_le, hbyte]
  exact ⟨hlow, hhigh⟩

theorem isParam_of_isAsciiDigit {b : UInt8} (h : isAsciiDigit b) : isParam b := by
  simp only [isAsciiDigit, isParam, Bool.and_eq_true, decide_eq_true_eq, UInt8.le_iff_toNat_le] at h ⊢
  exact ⟨h.1, h.2.trans (by decide)⟩

theorem semicolon_not_mem_decimal : (0x3B : UInt8) ∉ decimal n := fun h =>
  absurd (isAsciiDigit_of_mem_decimal _ h) (by decide)

theorem digitsValue_decimal (n : Nat) : digitsValue (decimal n) = n := by
  have hvalue := @Nat.ofDigitChars_ten_toDigits n
  rw [Nat.ofDigitChars_eq_foldl] at hvalue
  rw [digitsValue, decimal, List.foldl_map]
  refine Eq.trans (List.foldl_ext _ _ _ fun value digit hdigit => ?_) hvalue
  rw [(toNat_of_mem_toDigits hdigit).2.2]
  rfl

theorem parseField_decimal (h : n < 2 ^ 63) : parseField (decimal n) = some n := by
  rw [parseField, if_pos, digitsValue_decimal]
  refine ⟨?_, List.all_eq_true.mpr isAsciiDigit_of_mem_decimal, by rwa [digitsValue_decimal]⟩
  simp [decimal]

theorem leadingInt_decimal (h : n < 2 ^ 63) : leadingInt (decimal n) = some n := by
  rw [leadingInt, List.takeWhile_eq_self_iff.mpr isAsciiDigit_of_mem_decimal, parseField_decimal h]

/-! ## The tracked modes -/

/-- Only tracked modes are in the state. -/
def InputModeFinalState.Tracks (state : InputModeFinalState) : Prop :=
  ∀ mode enabled, state.modes[mode]? = some enabled → isTracked mode

theorem tracks_fresh : fresh.Tracks := by
  intro mode enabled h
  simp [fresh] at h

theorem tracks_apply (h : state.Tracks) (hmode : isTracked mode)
    (enabled : Bool) : (state.apply mode enabled).Tracks := by
  intro mode' enabled' hlookup
  rw [apply, BTreeMap.lookup_insert] at hlookup
  split at hlookup
  · simpa [‹mode' = mode›] using hmode
  · exact h mode' enabled' hlookup

theorem tracks_rewriteTracked (hact : ∀ state mode, state.Tracks → isTracked mode → (act state mode).Tracks)
    (h : state.Tracks) : (rewriteTracked csi state act).2.Tracks := by
  have hfold : ∀ (modes : List Nat) (state : InputModeFinalState), (∀ mode ∈ modes, isTracked mode) →
      state.Tracks → (modes.foldl act state).Tracks := by
    intro modes
    induction modes with
    | nil => exact fun state _ h => h
    | cons mode modes ih =>
      intro state hmodes h
      exact ih _ (fun mode' hmem => hmodes mode' (List.mem_cons_of_mem _ hmem))
        (hact state mode h (hmodes mode List.mem_cons_self))
  have htracked : ∀ mode ∈ ((csi.params.drop 1).splitOn 0x3B).filterMap trackedMode, isTracked mode := by
    intro mode hmode
    obtain ⟨field, -, hfield⟩ := List.mem_filterMap.mp hmode
    exact (Option.filter_eq_some_iff.mp hfield).2
  have := hfold _ state htracked h
  simp only [rewriteTracked]
  split_ifs <;> exact this

@[simp] theorem modes_kittyPush (state : InputModeFinalState) (flags : Flags) :
    (state.kittyPush flags).modes = state.modes := by
  unfold kittyPush
  split <;> rfl

@[simp] theorem modes_kittySet (state : InputModeFinalState) (flags : Flags) (mode : Nat) :
    (state.kittySet flags mode).modes = state.modes := by
  by_cases h : state.kittyStack = [] <;> simp [kittySet, h]

/-- One sequence brings in tracked modes only. -/
theorem tracks_process (h : state.Tracks) : (process csi state).2.Tracks := by
  have hkitty : ∀ {state' : InputModeFinalState}, state'.modes = state.modes → state'.Tracks := by
    intro state' hmodes
    rwa [InputModeFinalState.Tracks, hmodes]
  simp only [process]
  split_ifs
  · exact h
  · exact h
  · exact tracks_rewriteTracked (fun _ _ hstate hmode => tracks_apply hstate hmode _) h
  · exact h
  · exact tracks_rewriteTracked (fun state mode hstate _ => show (state.save mode).Tracks from hstate) h
  · exact tracks_rewriteTracked (fun _ _ hstate hmode => tracks_apply hstate hmode _) h
  · exact hkitty (modes_kittyPush state _)
  · exact h
  · exact hkitty (modes_kittySet state _ _)
  · exact h
  · exact h

theorem tracks_finalFrom (bytes : List UInt8) (h : state.Tracks) : (finalFrom state bytes).Tracks := by
  fun_induction finalFrom state bytes with
  | case5 state byte tail hesc csi hcsi ih => exact ih (tracks_process h)
  | _ => first | assumption | exact ‹_ → _› h

/-! ## The state asserted again -/

theorem stripFrom_sequence {params : List UInt8} (hparams : ∀ b ∈ params, isParam b)
    (finalByte : UInt8) (hfinal : isFinal finalByte) (state : InputModeFinalState) (after : List UInt8) :
    (stripFrom state (esc :: 0x5B :: (params ++ finalByte :: after))).2 =
      (stripFrom (process ⟨params, [], finalByte, params.length + 3⟩ state).2 after).2 := by
  have hcsi : Csi.Scanned ⟨params, [], finalByte, params.length + 3⟩ :=
    ⟨hparams, by simp, hfinal, by simp [Csi.spelled]⟩
  simpa [Csi.spelled] using stripFrom_spelled hcsi state after

theorem final_mode (h : isTracked mode) (state : InputModeFinalState) (after : List UInt8) :
    (stripFrom state ([esc, 0x5B, 0x3F] ++ decimal mode ++ [0x68] ++ after)).2 =
      (stripFrom (state.apply mode true) after).2 := by
  have hparams : ∀ b ∈ 0x3F :: decimal mode, isParam b := by
    simp only [List.forall_mem_cons]
    exact ⟨by decide, fun b hb => isParam_of_isAsciiDigit (isAsciiDigit_of_mem_decimal b hb)⟩
  have hsmall : mode < 2 ^ 63 := by
    have : ∀ mode ∈ trackedModes, mode < 2 ^ 63 := by decide
    exact this mode (by simpa [isTracked] using h)
  have hfield : trackedMode (decimal mode) = some mode := by
    rw [trackedMode, parseField_decimal hsmall, Option.filter_some, if_pos h]
  have := stripFrom_sequence hparams 0x68 (by decide) state after
  simp only [List.cons_append, List.nil_append, List.append_assoc] at this ⊢
  rw [this]
  simp [process, rewriteTracked, List.splitOn_eq_singleton semicolon_not_mem_decimal, hfield]

theorem final_base (h : state.kittyStack = []) (after : List UInt8) :
    (stripFrom state ([esc, 0x5B, 0x3D] ++ decimal flags.toNat ++ [0x3B, 0x31, 0x75] ++ after)).2 =
      (stripFrom { state with kittyBase := flags } after).2 := by
  have hparams : ∀ b ∈ 0x3D :: (decimal flags.toNat ++ [0x3B, 0x31]), isParam b := by
    simp only [List.forall_mem_cons, List.forall_mem_append, List.not_mem_nil, false_implies, implies_true,
      and_true]
    exact ⟨by decide, fun b hb => isParam_of_isAsciiDigit (isAsciiDigit_of_mem_decimal b hb), by decide⟩
  have := stripFrom_sequence hparams 0x75 (by decide) state after
  simp only [List.cons_append, List.nil_append, List.append_assoc] at this ⊢
  rw [this]
  have hone : ([0x31] : List UInt8).splitOn 0x3B = [[0x31]] := by decide
  have hdigit : leadingInt [0x31] = some 1 := by decide
  simp [process, List.splitOn_append_cons_self_of_not_mem semicolon_not_mem_decimal, hone, hdigit,
    leadingInt_decimal flags.isLt, kittySet, updated, h]

theorem final_push (state : InputModeFinalState) (after : List UInt8) :
    (stripFrom state ([esc, 0x5B, 0x3E] ++ decimal flags.toNat ++ [0x75] ++ after)).2 =
      (stripFrom (state.kittyPush flags) after).2 := by
  have hparams : ∀ b ∈ 0x3E :: decimal flags.toNat, isParam b := by
    simp only [List.forall_mem_cons]
    exact ⟨by decide, fun b hb => isParam_of_isAsciiDigit (isAsciiDigit_of_mem_decimal b hb)⟩
  have := stripFrom_sequence hparams 0x75 (by decide) state after
  simp only [List.cons_append, List.nil_append, List.append_assoc] at this ⊢
  rw [this]
  simp [process, leadingInt_decimal flags.isLt]

/-- The same modes on, the same base and the same stack. -/
structure InputModeFinalState.Agrees (state other : InputModeFinalState) : Prop where
  isOn : ∀ mode, state.isOn mode = other.isOn mode
  kittyBase : state.kittyBase = other.kittyBase
  kittyStack : state.kittyStack = other.kittyStack

theorem isOn_apply (state : InputModeFinalState) (mode mode' : Nat) (enabled : Bool) :
    (state.apply mode enabled).isOn mode' = if mode' = mode then enabled else state.isOn mode' := by
  simp only [isOn, apply, BTreeMap.lookup_insert]
  split <;> simp

theorem final_modes {entries : List (Nat × Bool)} (hentries : ∀ e ∈ entries, isTracked e.1) (after : List UInt8) :
    ∀ state : InputModeFinalState, ∃ state', state'.kittyBase = state.kittyBase ∧
      state'.kittyStack = state.kittyStack ∧
      (∀ mode, state'.isOn mode = (state.isOn mode || decide ((mode, true) ∈ entries))) ∧
      (stripFrom state (entries.flatMap (fun (mode, enabled) =>
        if enabled then [esc, 0x5B, 0x3F] ++ decimal mode ++ [0x68] else []) ++ after)).2 =
          (stripFrom state' after).2 := by
  induction entries with
  | nil => exact fun state => ⟨state, by simp⟩
  | cons entry entries ih =>
    intro state
    obtain ⟨mode, enabled⟩ := entry
    have ih := ih fun e he => hentries e (List.mem_cons_of_mem _ he)
    cases enabled with
    | false =>
      obtain ⟨state', hbase, hstack, hon, hfinal⟩ := ih state
      exact ⟨state', hbase, hstack, by simpa using hon, by simpa using hfinal⟩
    | true =>
      obtain ⟨state', hbase, hstack, hon, hfinal⟩ := ih (state.apply mode true)
      refine ⟨state', hbase, hstack, fun mode' => ?_, ?_⟩
      · rw [hon, isOn_apply]
        by_cases h : mode' = mode <;> simp [h]
      · rw [← hfinal, ← final_mode (hentries _ List.mem_cons_self)]
        simp

theorem final_stack {stack : List Flags} (after : List UInt8) :
    ∀ state : InputModeFinalState, state.kittyStack.length + stack.length ≤ stackCap →
      ∃ state', state'.kittyBase = state.kittyBase ∧ state'.kittyStack = state.kittyStack ++ stack ∧
        state'.modes = state.modes ∧
        (stripFrom state (stack.flatMap (fun flags => [esc, 0x5B, 0x3E] ++ decimal flags.toNat ++ [0x75]) ++
          after)).2 = (stripFrom state' after).2 := by
  induction stack with
  | nil => exact fun state _ => ⟨state, by simp⟩
  | cons flags stack ih =>
    intro state hroom
    simp only [List.length_cons] at hroom
    have hpush : state.kittyStack.length < stackCap := by omega
    obtain ⟨state', hbase, hstack, hmodes, hfinal⟩ := ih (state.kittyPush flags) (by simp [kittyPush, hpush]; omega)
    refine ⟨state', ?_, ?_, ?_, ?_⟩
    · simpa [kittyPush, hpush] using hbase
    · simpa [kittyPush, hpush] using hstack
    · simpa using hmodes
    · rw [← hfinal, ← final_push]
      simp

/-- A terminal that executes what is asserted again is in the state it was
made from. -/
theorem final_reassert (h : state.Tracks) : (finalState state.reassertSequence).Agrees state := by
  rw [finalState, finalFrom_eq, reassertSequence, List.append_assoc]
  obtain ⟨armed, hbase, hstack, hon, hfinal⟩ := @final_modes state.modes.toList
    (fun e he => h e.1 e.2 (BTreeMap.mem_toList.mp he)) ((if state.kittyBase ≠ 0 then
      [esc, 0x5B, 0x3D] ++ decimal state.kittyBase.toNat ++ [0x3B, 0x31, 0x75] else []) ++
    state.kittyStack.flatMap fun flags => [esc, 0x5B, 0x3E] ++ decimal flags.toNat ++ [0x75]) fresh
  rw [hfinal]
  obtain ⟨based, hbased, hmodes, hbottom, hfinal⟩ : ∃ based : InputModeFinalState,
      based.kittyBase = state.kittyBase ∧ based.modes = armed.modes ∧ based.kittyStack = [] ∧
      ∀ after, (stripFrom armed ((if state.kittyBase ≠ 0 then
        [esc, 0x5B, 0x3D] ++ decimal state.kittyBase.toNat ++ [0x3B, 0x31, 0x75] else []) ++ after)).2 =
          (stripFrom based after).2 := by
    by_cases hzero : state.kittyBase = 0
    · exact ⟨armed, by rw [hbase, hzero]; rfl, rfl, hstack, fun after => by simp [hzero]⟩
    · exact ⟨{ armed with kittyBase := state.kittyBase }, rfl, rfl, hstack, fun after => by
        rw [if_pos hzero, final_base hstack]⟩
  rw [hfinal]
  obtain ⟨pushed, hpushed, hpushes, hsame, hfinal⟩ := @final_stack state.kittyStack [] based
    (by simpa [hbottom] using state.capped)
  rw [List.append_nil] at hfinal
  rw [hfinal, stripFrom]
  refine ⟨fun mode => ?_, hpushed.trans hbased, by rw [hpushes, hbottom, List.nil_append]⟩
  have hmode : pushed.isOn mode = armed.isOn mode := by
    rw [isOn, isOn, hsame, hmodes]
  rw [hmode, hon, isOn, isOn]
  have hmem : (mode, true) ∈ state.modes.toList ↔ state.modes[mode]? = some true := BTreeMap.mem_toList
  rcases hlookup : state.modes[mode]? with _ | _ | _ <;> simp [hmem, hlookup, fresh]

/-! ## The bookkeeping -/

/-- The loops net to one state, stripped bytes are left as they are, and
what is asserted again makes the state. -/
theorem input_modes_kept (bytes : List UInt8) :
    finalState bytes = (strip bytes).2 ∧
      (strip (strip bytes).1).1 = (strip bytes).1 ∧ (strip (strip bytes).1).2.isNeutral ∧
      (finalState (strip bytes).2.reassertSequence).Agrees (strip bytes).2 := by
  have hfinal : finalState bytes = (strip bytes).2 := finalFrom_eq fresh bytes
  refine ⟨hfinal, ?_, ?_, ?_⟩
  · simp [strip, stripFrom_stripFrom]
  · simp [strip, stripFrom_stripFrom, fresh, isNeutral]
  · rw [← hfinal]
    exact final_reassert (tracks_finalFrom bytes tracks_fresh)

end SlopDesk.Sanitize
