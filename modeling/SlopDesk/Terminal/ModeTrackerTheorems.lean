/-
SlopDesk.Terminal.ModeTrackerTheorems — chunks and skims against one byte at
a time.

§1 the skim finds the first needle, whatever its test suspects. §2 what the
loop skips changes nothing, so it is the table over the bytes. §3 an `ESC`
that comes while no control sequence is being read begins a sequence, and a
switch or mark that is begun is seen.
-/
import SlopDesk.Base.Position
import SlopDesk.Terminal.ModeTracker

namespace SlopDesk.Terminal

open SlopDesk.Base TerminalModeTracker

variable {needle byte : UInt8} {window idle : List UInt8}

/-! ## §1 The skim -/

theorem zipWith_replicate_xor (bytes : List UInt8) (needle : UInt8) :
    List.zipWith (· ^^^ ·) bytes (List.replicate bytes.length needle) = bytes.map (· ^^^ needle) := by
  induction bytes with
  | nil => rfl
  | cons b rest ih => rw [List.length_cons, List.replicate_succ, List.zipWith_cons_cons, ih, List.map_cons]

/-- A word that holds the needle is suspected. -/
theorem suspects_of_mem {word : List UInt8} (hlength : word.length = laneCount)
    (h : needle ∈ word) : suspects word needle = true := by
  have hzero : (0 : UInt8) ∈ word.map (· ^^^ needle) := List.mem_map.mpr ⟨needle, h, UInt8.xor_self⟩
  have hxor : Lanes.word word ^^^ Lanes.lanes laneCount needle = Lanes.word (word.map (· ^^^ needle)) := by
    rw [Lanes.lanes, ← hlength, Lanes.xor_word (by simp), zipWith_replicate_xor]
  have htest := Lanes.and_highs_ne_zero (w := 128) (by rw [List.length_map, hlength]; rfl) hzero
  rw [List.length_map, hlength] at htest
  rw [suspects, ← BitVec.ofNat_xor, hxor]
  exact decide_eq_true htest

theorem skimFrom_eq (needle : UInt8) (at' : Nat) (window : List UInt8) :
    skimFrom needle at' window = (window.findIdx? (· = needle)).map (at' + ·) := by
  fun_induction skimFrom needle at' window with
  | case1 at' window hle word i hfound =>
    have hword : word.findIdx? (· = needle) = some i := by
      split at hfound
      · exact hfound
      · cases hfound
    have hsplit : window = word ++ window.drop laneCount := (List.take_append_drop laneCount window).symm
    rw [hsplit, List.findIdx?_append, hword]
    rfl
  | case2 at' window hle word hmissed ih =>
    have hlength : word.length = laneCount := by simp [word, hle]
    have hword : word.findIdx? (· = needle) = none := by
      by_cases hmem : needle ∈ word
      · simpa [suspects_of_mem hlength hmem] using hmissed
      · rw [List.findIdx?_eq_none_iff]
        intro b hb
        simpa using fun heq : b = needle => hmem (heq ▸ hb)
    have hsplit : window = word ++ window.drop laneCount := (List.take_append_drop laneCount window).symm
    rw [ih]
    conv_rhs => rw [hsplit, List.findIdx?_append, hword]
    rw [Option.none_or, Option.map_map, hlength]
    congr 1
    funext i
    simp only [Function.comp_apply]
    omega
  | case3 at' window hle => rfl

/-- The skim finds the first needle. -/
theorem skim_eq (window : List UInt8) (needle : UInt8) :
    skim window needle = window.findIdx? (· = needle) := by
  rw [skim, skimFrom_eq]
  simp

theorem skim_none (h : skim window needle = none) : needle ∉ window := by
  rw [skim_eq, List.findIdx?_eq_none_iff] at h
  intro hmem
  simpa using h needle hmem

theorem skim_some {i : Nat} (h : skim window needle = some i) :
    window = window.take i ++ needle :: window.drop (i + 1) ∧ needle ∉ window.take i := by
  rw [skim_eq] at h
  obtain ⟨before, found, behind, rfl, rfl, hfound, hbefore⟩ := Position.of_findIdx? h
  obtain rfl : found = needle := by simpa using hfound
  refine ⟨by simp, ?_⟩
  rw [List.take_left']
  · exact fun hmem => by simpa using hbefore found hmem
  · rfl

/-! ## §2 The loop -/

variable {table : TerminalModeTracker → UInt8 → Reading} {t : TerminalModeTracker}
variable {payload sequence : List UInt8} {isSet : Bool}

theorem bytewise_cons (byte : UInt8) (rest : List UInt8) : bytewise table t (byte :: rest) =
      ((bytewise table (table t byte).1 rest).1, (table t byte).2 ++ (bytewise table (table t byte).1 rest).2) := rfl

theorem bytewise_append (bytes more : List UInt8) : bytewise table t (bytes ++ more) =
      ((bytewise table (bytewise table t bytes).1 more).1,
        (bytewise table t bytes).2 ++ (bytewise table (bytewise table t bytes).1 more).2) := by
  induction bytes generalizing t with
  | nil => rfl
  | cons byte rest ih => rw [List.cons_append, bytewise_cons, ih, bytewise_cons, List.append_assoc]

/-- Bytes that do nothing. -/
theorem bytewise_idle (h : ∀ b ∈ idle, table t b = (t, [])) : bytewise table t idle = (t, []) := by
  induction idle with
  | nil => rfl
  | cons byte rest ih =>
    rw [bytewise_cons, h byte List.mem_cons_self, ih fun b hb => h b (List.mem_cons_of_mem _ hb)]
    rfl

theorem bytewise_idle_append {more : List UInt8} (h : ∀ b ∈ idle, table t b = (t, [])) :
    bytewise table t (idle ++ more) = bytewise table t more := by
  rw [bytewise_append, bytewise_idle h]
  rfl

theorem step_ground (ht : t.state = .ground) (hb : byte ≠ esc) : t.step byte = (t, []) := by
  rw [TerminalModeTracker.step, ht]
  simp [hb]

theorem step_string (ht : t.state = .stringConsume) (hesc : byte ≠ esc) (hbel : byte ≠ bel) :
    t.step byte = (t, []) := by
  rw [TerminalModeTracker.step, ht]
  simp [hesc, hbel]

theorem bytewise_ground (ht : t.state = .ground) (h : esc ∉ idle) (more : List UInt8) :
    bytewise step t (idle ++ more) = bytewise step t more :=
  bytewise_idle_append fun _ hb => step_ground ht fun heq => h (heq ▸ hb)

theorem bytewise_string (ht : t.state = .stringConsume) (hesc : esc ∉ idle) (hbel : bel ∉ idle)
    (more : List UInt8) : bytewise step t (idle ++ more) = bytewise step t more :=
  bytewise_idle_append fun _ hb =>
    step_string ht (fun heq => hesc (heq ▸ hb)) (fun heq => hbel (heq ▸ hb))

theorem split_behind {before behind : List UInt8} {b : UInt8} (h : window = before ++ b :: behind) :
    window = before ++ b :: window.drop (before.length + 1) := by
  subst h
  simp

/-- Up to the next `ESC`, or to the end. -/
theorem escape_cut {cut : Nat} (h : (skim window esc).getD window.length = cut) :
    esc ∉ window.take cut ∧ (cut < window.length → window = window.take cut ++ esc :: window.drop (cut + 1)) := by
  cases hskim : skim window esc with
  | none =>
    obtain rfl : window.length = cut := by simpa [hskim] using h
    exact ⟨by simpa using skim_none hskim, fun hlt => absurd hlt (Nat.lt_irrefl _)⟩
  | some i =>
    obtain rfl : i = cut := by simpa [hskim] using h
    obtain ⟨hsplit, hesc⟩ := skim_some hskim
    exact ⟨hesc, fun _ => hsplit⟩

/-- The loop is the table, byte after byte. -/
theorem consume_eq (t : TerminalModeTracker) (bytes : List UInt8) : t.consume bytes = bytewise step t bytes := by
  fun_induction TerminalModeTracker.consume t bytes with
  | case1 t => rfl
  | case2 t byte rest ht offset hskim next events hstep last more hrest ih =>
    obtain ⟨hsplit, hesc⟩ := skim_some hskim
    rw [hsplit, bytewise_ground ht hesc, bytewise_cons, hstep, ← ih, hrest]
  | case3 t byte rest ht hskim =>
    have hidle := bytewise_ground ht (skim_none hskim) []
    rw [List.append_nil] at hidle
    exact hidle.symm
  | case4 t byte rest ht escapeAt bellAt hskim next events hstep last more hrest ih =>
    obtain ⟨hesc, _⟩ : esc ∉ (byte :: rest).take escapeAt ∧ _ := escape_cut rfl
    obtain ⟨hsplit, hbel⟩ := skim_some hskim
    have hlt : bellAt < escapeAt ∧ bellAt < (byte :: rest).length := by
      have hlength := congrArg List.length hsplit
      simp only [List.length_append, List.length_cons, List.length_take, List.length_drop] at hlength ⊢
      omega
    have hwhole : byte :: rest = (byte :: rest).take bellAt ++ bel :: (byte :: rest).drop (bellAt + 1) := by
      have hjoin := congrArg (· ++ (byte :: rest).drop escapeAt) hsplit
      rw [List.take_take, Nat.min_eq_left hlt.1.le] at hjoin
      simp only [List.take_append_drop, List.append_assoc, List.cons_append] at hjoin
      have hbehind := split_behind hjoin
      rwa [List.length_take, Nat.min_eq_left hlt.2.le] at hbehind
    rw [List.take_take, Nat.min_eq_left hlt.1.le] at hbel
    have hbefore : esc ∉ (byte :: rest).take bellAt := fun hmem =>
      hesc (List.take_subset_take_left _ hlt.1.le hmem)
    rw [hwhole, bytewise_string ht hbefore hbel, bytewise_cons, hstep, ← ih, hrest]
  | case5 t byte rest ht escapeAt hskim hlt next events hstep last more hrest ih =>
    obtain ⟨hesc, hsplit⟩ : esc ∉ (byte :: rest).take escapeAt ∧ _ := escape_cut rfl
    rw [hsplit hlt, bytewise_string ht hesc (skim_none hskim), bytewise_cons, hstep, ← ih, hrest]
  | case6 t byte rest ht escapeAt hskim hge =>
    obtain ⟨hesc, _⟩ : esc ∉ (byte :: rest).take escapeAt ∧ _ := escape_cut rfl
    rw [List.take_of_length_le (Nat.le_of_not_lt hge)] at hesc hskim
    have hidle := bytewise_string ht hesc (skim_none hskim) []
    rw [List.append_nil] at hidle
    exact hidle.symm
  | case7 t byte rest next events hstep last more hrest hground hstring ih =>
    rw [bytewise_cons, hstep, ← ih, hrest]

theorem consumeChunks_eq (t : TerminalModeTracker) (chunks : List (List UInt8)) :
    t.consumeChunks chunks = bytewise step t chunks.flatten := by
  induction chunks generalizing t with
  | nil => rfl
  | cons chunk chunks ih =>
    rw [List.flatten_cons, bytewise_append, ← ih, ← consume_eq t chunk]
    rfl

/-! ## §3 Sequences -/

/-- No `ESC` while a control sequence is being read. -/
def Spared (t : TerminalModeTracker) (byte : UInt8) : Prop := t.state = .csi → byte ≠ esc

theorem readByte_of_spared (h : Spared t byte) : readByte t byte = t.step byte := by
  rw [readByte, if_neg]
  rintro ⟨hcsi, hesc⟩
  exact h hcsi hesc

/-- The table is the reader's wherever no `ESC` comes too early. -/
theorem bytewise_readByte {bytes : List UInt8} (h : Meets (fun t b => (t.step b).1) Spared t bytes) :
    bytewise readByte t bytes = bytewise step t bytes := by
  induction bytes generalizing t with
  | nil => rfl
  | cons byte rest ih => rw [bytewise_cons, bytewise_cons, readByte_of_spared h.1, ih h.2]

/-- Inside a body that is opaque to a terminal. -/
def Opaque (t : TerminalModeTracker) : Prop := t.state = .stringConsume ∨ t.state = .stringConsumeEscape

/-- An `ESC` outside of one waits for an introducer. Only the events of an
OSC that it ends come before what it introduces. -/
theorem readByte_esc (h : ¬ Opaque t) :
    ((readByte t esc).1.state = .escape ∨ (readByte t esc).1.state = .oscEscape) ∧
      (readByte t esc).1.mode = t.mode := by
  simp only [Opaque, not_or] at h
  cases hstate : t.state with
  | stringConsume => exact absurd hstate h.1
  | stringConsumeEscape => exact absurd hstate h.2
  | _ => simp [readByte, TerminalModeTracker.step, stepEscape, stepOsc, hstate, esc, bel]

theorem readByte_introducer (hstate : t.state = .escape ∨ t.state = .oscEscape) :
    (∃ events, readByte t 0x5B = ({ t with state := .csi, csiBuffer := [] }, events)) ∧
      ∃ events, readByte t 0x5D = ({ t with state := .osc, oscBuffer := [] }, events) := by
  rcases hstate with hstate | hstate <;> simp [readByte, TerminalModeTracker.step, stepEscape, hstate, esc]

/-- What a control sequence is made of, up to its final byte. -/
def IsBody (byte : UInt8) : Prop := ¬ (0x40 ≤ byte ∧ byte ≤ 0x7E) ∧ byte ≠ esc

theorem bytewise_csi {body : List UInt8} (ht : t.state = .csi) (hbody : ∀ b ∈ body, IsBody b)
    (hfits : t.csiBuffer.length + body.length ≤ csiCap) :
    bytewise readByte t body = ({ t with csiBuffer := t.csiBuffer ++ body }, []) := by
  induction body generalizing t with
  | nil =>
    rw [List.append_nil]
    rfl
  | cons byte rest ih =>
    obtain ⟨hfinal, hesc⟩ := hbody byte List.mem_cons_self
    rw [List.length_cons] at hfits
    have hshort : ¬ csiCap < (t.csiBuffer ++ [byte]).length := by
      rw [List.length_append, List.length_singleton]
      omega
    have hstep : readByte t byte = ({ t with csiBuffer := t.csiBuffer ++ [byte] }, []) := by
      rw [readByte_of_spared fun _ => hesc, TerminalModeTracker.step, ht]
      simp only [stepCsi, hfinal, if_false, hshort, ht]
    have hrest := ih (t := { t with csiBuffer := t.csiBuffer ++ [byte] }) ht
      (fun b hb => hbody b (List.mem_cons_of_mem _ hb))
      (by simp only [List.length_append, List.length_singleton]; omega)
    rw [bytewise_cons, hstep]
    dsimp only
    rw [hrest]
    simp

theorem bytewise_osc (ht : t.state = .osc) (hpayload : bel ∉ payload ∧ esc ∉ payload)
    (hfits : t.oscBuffer.length + payload.length ≤ oscCap) :
    bytewise readByte t payload = ({ t with oscBuffer := t.oscBuffer ++ payload }, []) := by
  induction payload generalizing t with
  | nil =>
    rw [List.append_nil]
    rfl
  | cons byte rest ih =>
    simp only [List.mem_cons, not_or] at hpayload
    rw [List.length_cons] at hfits
    have hshort : ¬ oscCap < (t.oscBuffer ++ [byte]).length := by
      rw [List.length_append, List.length_singleton]
      omega
    have hstep : readByte t byte = ({ t with oscBuffer := t.oscBuffer ++ [byte] }, []) := by
      rw [readByte_of_spared fun hcsi => by simp [ht] at hcsi, TerminalModeTracker.step, ht]
      simp only [stepOsc, Ne.symm hpayload.1.1, Ne.symm hpayload.2.1, if_false, hshort, ht]
    have hrest := ih (t := { t with oscBuffer := t.oscBuffer ++ [byte] }) ht ⟨hpayload.1.2, hpayload.2.2⟩
      (by simp only [List.length_append, List.length_singleton]; omega)
    rw [bytewise_cons, hstep]
    dsimp only
    rw [hrest]
    simp

/-- A whole DECSET or DECRST of an alternate screen, no longer than the cap. -/
structure IsSwitch (isSet : Bool) (sequence fields : List UInt8) : Prop where
  spelled : sequence = [esc, 0x5B] ++ (0x3F :: fields) ++ [if isSet then 0x68 else 0x6C]
  body : ∀ b ∈ fields, IsBody b
  fits : fields.length < csiCap
  switches : switchesScreen (parameters fields) = true

/-- A whole OSC, no longer than the cap. -/
structure IsOsc (sequence payload : List UInt8) : Prop where
  spelled : sequence = [esc, 0x5D] ++ payload ++ [bel] ∨ sequence = [esc, 0x5D] ++ payload ++ [esc, 0x5C]
  body : bel ∉ payload ∧ esc ∉ payload
  fits : payload.length ≤ oscCap

/-- The screen a switch asks for, and the event of one that changes it. -/
def target (isSet : Bool) : TerminalMode := if isSet then .altScreen else .shellPrompt
def switched (isSet : Bool) : TerminalModeEvent := if isSet then .enteredAltScreen else .exitedAltScreen

theorem setScreen_eq (isSet : Bool) : t.setScreen isSet =
      ({ t with mode := target isSet }, if t.mode = target isSet then [] else [switched isSet]) := by
  obtain ⟨mode, _, _, _, _, _⟩ := t
  cases isSet <;> cases mode <;> rfl

theorem handleCsi_switch {finalByte : UInt8} {fields : List UInt8}
    (hbuffer : t.csiBuffer = (0x3F :: fields) ++ [finalByte]) (hfinal : finalByte = 0x68 ∨ finalByte = 0x6C)
    (hswitches : switchesScreen (parameters fields) = true) :
    t.handleCsi = (t.setFlags (parameters fields) (finalByte = 0x68)).setScreen (finalByte = 0x68) := by
  have hlast : t.csiBuffer.getLast? = some finalByte := by rw [hbuffer, List.getLast?_concat]
  have hhead : t.csiBuffer.head? = some 0x3F := by rw [hbuffer]; rfl
  have hfields : t.csiBuffer.dropLast.drop 1 = fields := by rw [hbuffer, List.dropLast_concat]; rfl
  have hknown : ¬ (finalByte ≠ 0x68 ∧ finalByte ≠ 0x6C) := by
    rcases hfinal with rfl | rfl <;> simp
  rw [handleCsi, hlast]
  dsimp only
  rw [if_neg hknown, hhead, if_neg (by simp), hfields, if_pos hswitches]

/-- The last byte of a switch. -/
theorem readByte_switch {fields : List UInt8} (ht : t.state = .csi)
    (hbuffer : t.csiBuffer = 0x3F :: fields) (hswitches : switchesScreen (parameters fields) = true) :
    (readByte t (if isSet then 0x68 else 0x6C)).1.mode = target isSet ∧
      (readByte t (if isSet then 0x68 else 0x6C)).2 = if t.mode = target isSet then [] else [switched isSet] := by
  have hread (finalByte : UInt8) (hfinal : finalByte = 0x68 ∨ finalByte = 0x6C) :
      (readByte t finalByte).1.mode = target (finalByte = 0x68) ∧
        (readByte t finalByte).2 =
          if t.mode = target (finalByte = 0x68) then [] else [switched (finalByte = 0x68)] := by
    have hrange : (0x40 ≤ finalByte ∧ finalByte ≤ 0x7E) ∧ finalByte ≠ esc := by
      rcases hfinal with rfl | rfl <;> decide
    rw [readByte_of_spared fun _ => hrange.2, TerminalModeTracker.step, ht]
    dsimp only
    rw [stepCsi, if_pos hrange.1,
      handleCsi_switch (by rw [hbuffer]) hfinal hswitches, setScreen_eq]
    exact ⟨rfl, rfl⟩
  cases isSet with
  | true => exact hread 0x68 (.inl rfl)
  | false => exact hread 0x6C (.inr rfl)

/-- From outside an opaque body a whole switch is read to its end. -/
theorem bytewise_switch {fields : List UInt8} (h : IsSwitch isSet sequence fields) (ht : ¬ Opaque t) :
    (bytewise readByte t sequence).1.mode = target isSet ∧
      ∃ earlier, (bytewise readByte t sequence).2 =
        earlier ++ if t.mode = target isSet then [] else [switched isSet] := by
  obtain ⟨hstate, hmode⟩ := readByte_esc ht
  obtain ⟨⟨flushed, hopen⟩, _⟩ := readByte_introducer hstate
  have hparts : ∀ b ∈ 0x3F :: fields, IsBody b :=
    List.forall_mem_cons.mpr ⟨⟨by decide, by decide⟩, h.body⟩
  have hfits : ([] : List UInt8).length + (0x3F :: fields).length ≤ csiCap := by
    have := h.fits
    rw [List.length_nil, List.length_cons]
    omega
  have hbody := bytewise_csi (t := { (readByte t esc).1 with state := .csi, csiBuffer := [] }) rfl hparts hfits
  obtain ⟨hend, hevents⟩ := @readByte_switch
    { (readByte t esc).1 with state := .csi, csiBuffer := 0x3F :: fields } isSet fields rfl rfl h.switches
  rw [h.spelled, List.append_assoc, List.cons_append, List.cons_append, List.nil_append, bytewise_cons, bytewise_cons,
    hopen]
  dsimp only
  rw [bytewise_append, hbody]
  dsimp only
  rw [List.nil_append, bytewise_cons]
  refine ⟨hend, (readByte t esc).2 ++ flushed, ?_⟩
  dsimp only at hevents hmode ⊢
  rw [hevents, hmode]
  simp [bytewise]

/-- From outside an opaque body a whole OSC is read to its end. -/
theorem bytewise_mark (h : IsOsc sequence payload) (ht : ¬ Opaque t) :
    ∃ earlier, (bytewise readByte t sequence).2 = earlier ++ oscEvents payload := by
  obtain ⟨hstate, _⟩ := readByte_esc ht
  obtain ⟨_, flushed, hopen⟩ := readByte_introducer hstate
  have hbody := bytewise_osc (t := { (readByte t esc).1 with state := .osc, oscBuffer := [] }) rfl h.body (by
    have := h.fits
    simpa using this)
  refine ⟨(readByte t esc).2 ++ flushed, ?_⟩
  rcases h.spelled with hspelled | hspelled
  all_goals
    rw [hspelled, List.append_assoc, List.cons_append, List.cons_append, List.nil_append, bytewise_cons,
      bytewise_cons, hopen]
    dsimp only
    rw [bytewise_append, hbody]
    simp [bytewise, readByte, TerminalModeTracker.step, stepOsc, esc, bel]

/-! ## §4 The stream -/

/-- In every run in which no `ESC` comes while a control sequence is being
read, the chunks say what the reader says, and nothing complete is lost. -/
theorem reads_as_bytes (chunks : List (List UInt8)) :
    consumeChunks {} chunks = bytewise step {} chunks.flatten ∧
      (Meets (fun t b => (t.step b).1) Spared {} chunks.flatten →
        consumeChunks {} chunks = bytewise readByte {} chunks.flatten ∧
          ∀ before sequence, chunks.flatten = before ++ sequence → ¬ Opaque (bytewise readByte {} before).1 →
            (∀ isSet fields, IsSwitch isSet sequence fields →
              (consumeChunks {} chunks).1.mode = target isSet ∧
                ∃ earlier, (consumeChunks {} chunks).2 = earlier ++
                  if (bytewise readByte {} before).1.mode = target isSet then [] else [switched isSet]) ∧
              ∀ payload, IsOsc sequence payload →
                ∃ earlier, (consumeChunks {} chunks).2 = earlier ++ oscEvents payload) := by
  refine ⟨consumeChunks_eq {} chunks, ?_⟩
  intro hspared
  have hread : consumeChunks {} chunks = bytewise readByte {} chunks.flatten := by
    rw [consumeChunks_eq, bytewise_readByte hspared]
  refine ⟨hread, ?_⟩
  intro before sequence hflatten houtside
  rw [hread, hflatten, bytewise_append]
  constructor
  · intro isSet fields hswitch
    obtain ⟨hmode, earlier, hevents⟩ := bytewise_switch hswitch houtside
    exact ⟨hmode, _ ++ earlier, by rw [hevents, List.append_assoc]⟩
  · intro payload hosc
    obtain ⟨earlier, hevents⟩ := bytewise_mark hosc houtside
    exact ⟨_ ++ earlier, by rw [hevents, List.append_assoc]⟩

/-- `ESC [ 1 ESC [ ? 1 0 4 9 h`. -/
def cutShort : List UInt8 := [0x1B, 0x5B, 0x31, 0x1B, 0x5B, 0x3F, 0x31, 0x30, 0x34, 0x39, 0x68]

/-- The switch behind a sequence that was cut short is lost. -/
theorem switch_lost :
    IsSwitch true (cutShort.drop 3) [0x31, 0x30, 0x34, 0x39] ∧
      (bytewise readByte {} cutShort).1.mode = .altScreen ∧
      (bytewise readByte {} cutShort).2 = [.enteredAltScreen] ∧
      (consumeChunks {} [cutShort]).1.mode = .shellPrompt ∧ (consumeChunks {} [cutShort]).2 = [] := by
  rw [consumeChunks_eq]
  exact ⟨⟨rfl, by simp [IsBody, esc], by decide, by decide⟩, by decide, by decide, by decide, by decide⟩

theorem reads_as_bytes_switch :
    (consumeChunks {} [[0x1B, 0x5B], [0x3F, 0x34, 0x37, 0x68]]).1.mode = .altScreen :=
  have hspared : Meets (fun t b => (TerminalModeTracker.step t b).1) Spared {}
      [[0x1B, 0x5B], [0x3F, 0x34, 0x37, 0x68]].flatten := by
    simp [Meets, Spared, esc, TerminalModeTracker.step, stepEscape]
  ((((reads_as_bytes [[0x1B, 0x5B], [0x3F, 0x34, 0x37, 0x68]]).2 hspared).2 [] _ rfl (by simp [Opaque, bytewise])).1
    true [0x34, 0x37] ⟨rfl, by simp [IsBody, esc], by decide, by decide⟩).1

end SlopDesk.Terminal
