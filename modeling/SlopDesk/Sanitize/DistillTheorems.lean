/-
SlopDesk.Sanitize.DistillTheorems — what the distiller leaves, mark by mark.

§1 runs the byte machine over one item of the stream; from the ground state
it comes back there, its spans moved as the item moves them. An `OSC` that an
`ESC` alone ended may be written with that `ESC` (`Item.written`). §2 runs the
marks over a span, whose bytes wait or, over the cap, have gone out. §3 puts
the stretches of the stream together.
-/
import SlopDesk.Sanitize.Distill

namespace SlopDesk.Sanitize

variable (its : List Item)

namespace Item

variable (bytes payload : List UInt8) (bare : Bool)

@[simp] theorem raw_text : (text bytes).raw = bytes := rfl
@[simp] theorem raw_osc : (osc bytes payload bare).raw = bytes := rfl
@[simp] theorem raw_oversized : (oversized bytes).raw = bytes := rfl
@[simp] theorem mark_text : (text bytes).mark = none := rfl
@[simp] theorem mark_osc : (osc bytes payload bare).mark = markOf payload := rfl
@[simp] theorem mark_oversized : (oversized bytes).mark = none := rfl
@[simp] theorem plain_text : (text bytes).plain = true := rfl
@[simp] theorem plain_osc : (osc bytes payload bare).plain = (markOf payload).isNone := rfl
@[simp] theorem plain_oversized : (oversized bytes).plain = false := rfl

/-- An item as the machine writes it. -/
def written : Item → Item
  | osc bytes payload bare =>
    osc (if (osc bytes payload bare).doubled then bytes ++ [esc] else bytes) payload bare
  | item => item

@[simp] theorem written_text : (text bytes).written = text bytes := rfl

@[simp] theorem mark_written (item : Item) : item.written.mark = item.mark := by
  cases item <;> rfl

theorem written_of_not_doubled {item : Item} (h : item.doubled = false) : item.written = item := by
  cases item with
  | text | oversized => rfl
  | osc bytes payload bare => simp [written, h]

@[simp] theorem written_ofOsc (payload ended : List UInt8) :
    (ofOsc payload ended false).written = ofOsc payload ended false := by
  refine written_of_not_doubled ?_
  unfold ofOsc
  split <;> rfl

@[simp] theorem written_unended (payload ended : List UInt8) :
    (unended payload ended).written = unended payload ended := by
  refine written_of_not_doubled ?_
  unfold unended
  split <;> rfl

end Item

namespace Spans

/-- Bytes may go in one at a time. -/
theorem emit_append (s : Spans) (bytes more : List UInt8) :
    s.emit (bytes ++ more) = (s.emit bytes).emit more := by
  by_cases hopen : s.suppress = false ∨ s.inputMode = .passthrough
  · simp [emit, hopen]
  · by_cases hover : (s.inputBuffer ++ bytes).length > inputSpanCap
    · have hboth : (s.inputBuffer ++ (bytes ++ more)).length > inputSpanCap := by
        simp only [List.length_append] at hover ⊢
        omega
      simp only [emit, Bool.not_eq_true', hopen, if_false, spillIfOverCap, hboth, hover, if_true]
      simp
    · simp only [emit, Bool.not_eq_true', hopen, if_false, spillIfOverCap, hover, List.append_assoc]

/-- What an item does to the spans. -/
def take (s : Spans) : Item → Spans
  | .text bytes => s.emit bytes
  | .osc bytes payload _ => s.finishOsc payload bytes
  | .oversized _ => s

end Spans

/-! ## §1 Items -/

namespace Distiller

variable {payload : List UInt8}
variable (d : Distiller) (s : Spans)

/-- The machine between two items. -/
def atGround (s : Spans) : Distiller := ⟨s, [], [], .ground⟩

/-- The spans at the end of the stream. -/
def ended (d : Distiller) : Spans := d.emitPending.spans

theorem run_append (bytes more : List UInt8) : d.run (bytes ++ more) = (d.run bytes).run more :=
  List.foldl_append

@[simp] theorem run_cons (byte : UInt8) (bytes : List UInt8) :
    d.run (byte :: bytes) = (d.step byte).run bytes := rfl

@[simp] theorem run_nil : d.run [] = d := rfl

theorem run_discarded (h : ∀ b ∈ payload, inPayload b) :
    (⟨s, [], [], .oscDiscard⟩ : Distiller).run payload = ⟨s, [], [], .oscDiscard⟩ := by
  induction payload with
  | nil => rfl
  | cons b payload ih =>
    have hb := h b List.mem_cons_self
    simp only [inPayload, Bool.and_eq_true, decide_eq_true_eq, ne_eq] at hb
    simp [step, hb, ih fun b hb => h b (List.mem_cons_of_mem _ hb)]

/-- A payload is collected up to the cap. -/
theorem run_payload (h : ∀ b ∈ payload, inPayload b) : ∀ pending before : List UInt8, before.length ≤ oscCap →
      (⟨s, pending, before, .osc⟩ : Distiller).run payload =
        if (before ++ payload).length > oscCap then ⟨s, [], [], .oscDiscard⟩
        else ⟨s, pending ++ payload, before ++ payload, .osc⟩ := by
  induction payload with
  | nil =>
    intro pending before hcap
    simp [Nat.not_lt.mpr hcap]
  | cons b payload ih =>
    intro pending before hcap
    have hb := h b List.mem_cons_self
    have hrest := fun b hb => h b (List.mem_cons_of_mem _ hb)
    simp only [inPayload, Bool.and_eq_true, decide_eq_true_eq, ne_eq] at hb
    by_cases hover : (before ++ [b]).length > oscCap
    · have hall : (before ++ b :: payload).length > oscCap := by
        simp only [List.length_append, List.length_cons, List.length_nil] at hover ⊢
        omega
      rw [if_pos hall, run_cons, step]
      simp only [hb, hover, if_false, if_true]
      exact run_discarded s hrest
    · rw [run_cons, step]
      simp only [hb, hover, if_false]
      rw [ih hrest _ _ (Nat.not_lt.mp hover)]
      simp

/-- The body of a string sequence goes on as it is. -/
theorem run_stringBody (bytes : List UInt8) :
    ∀ before : List UInt8, ((⟨s.emit before, [], [], .stringConsume⟩ : Distiller).run bytes).ended =
      ((atGround (s.emit (before ++ (stringBody bytes).1))).run (stringBody bytes).2).ended := by
  fun_induction stringBody bytes with
  | case1 => simp [ended, emitPending, atGround]
  | case2 byte =>
    intro before
    by_cases hbel : byte = bel
    · simp [step, hbel, ended, emitPending, atGround, Spans.emit_append]
    · by_cases hesc : byte = esc
      · have hne : ¬esc = bel := by decide
        simp [step, hesc, hne, ended, emitPending, atGround, Spans.emit_append]
      · simp [step, hbel, hesc, ended, emitPending, atGround, Spans.emit_append]
  | case3 next rest =>
    intro before
    simp [step, atGround, Spans.emit_append]
  | case4 rest hbel =>
    intro before
    simp [step, hbel, emitPending, atGround, Spans.emit_append]
  | case5 rest hbel hst ih =>
    intro before
    have hih := ih (before ++ [esc])
    rw [List.append_cons]
    simpa [step, hbel, hst, emitPending, Spans.emit_append] using hih
  | case6 next rest hbel hst hesc ih =>
    intro before
    have hih := ih (before ++ [esc, next])
    simpa [step, hbel, hst, hesc, emitPending, Spans.emit_append] using hih
  | case7 byte next rest hbel hesc ih =>
    intro before
    have hih := ih (before ++ [byte])
    simpa [step, hbel, hesc, Spans.emit_append] using hih

/-- The machine after the payload of an `OSC`. -/
def inOsc (s : Spans) (payload : List UInt8) : Distiller :=
  if payload.length > oscCap then ⟨s, [], [], .oscDiscard⟩ else ⟨s, [esc, 0x5D] ++ payload, payload, .osc⟩

theorem run_introduced (tail : List UInt8) : (atGround s).run (esc :: 0x5D :: tail) =
      (inOsc s (tail.takeWhile inPayload)).run (tail.dropWhile inPayload) := by
  have hpayload : ∀ b ∈ tail.takeWhile inPayload, inPayload b := fun b hb => List.mem_takeWhile_imp hb
  have hosc : (atGround s).run (esc :: 0x5D :: tail) = (⟨s, [esc, 0x5D], [], .osc⟩ : Distiller).run tail := by
    simp [atGround, step, handleAfterEsc]
  rw [hosc]
  conv_lhs => rw [← List.takeWhile_append_dropWhile (p := inPayload) (l := tail)]
  rw [run_append, run_payload s hpayload _ _ (Nat.zero_le _), inOsc]
  rfl

@[simp] theorem step_inOsc_bel (payload : List UInt8) :
    (inOsc s payload).step bel = atGround (s.take (.ofOsc payload [bel] false)) := by
  by_cases hcap : payload.length > oscCap
  · simp [inOsc, Item.ofOsc, hcap, step, atGround, Spans.take]
  · simp [inOsc, Item.ofOsc, hcap, step, finishOsc, atGround, Spans.take]

@[simp] theorem step_inOsc_st (payload : List UInt8) :
    ((inOsc s payload).step esc).step 0x5C = atGround (s.take (.ofOsc payload [esc, 0x5C] false)) := by
  have hne : ¬esc = bel := by decide
  by_cases hcap : payload.length > oscCap
  · simp [inOsc, Item.ofOsc, hcap, step, hne, atGround, Spans.take]
  · simp [inOsc, Item.ofOsc, hcap, step, hne, finishOsc, atGround, Spans.take]

theorem handleAfterEsc_state (state : DistillState) (byte : UInt8) :
    { d with state := state }.handleAfterEsc byte = d.handleAfterEsc byte := by
  simp only [handleAfterEsc, emitPending]
  split_ifs <;> rfl

/-- An `ESC` alone ends the sequence and begins the next one. -/
theorem step_inOsc_bare {s : Spans} {next : UInt8} (hst : next ≠ 0x5C) :
    ((inOsc s payload).step esc).step next =
      ((atGround (s.take (Item.ofOsc payload [] true).written)).step esc).step next := by
  have hne : ¬esc = bel := by decide
  by_cases hcap : payload.length > oscCap
  · simp only [inOsc, Item.ofOsc, Item.written, hcap, step, hne, hst, atGround, Spans.take, if_true, if_false]
    exact handleAfterEsc_state ⟨s, [esc], [], .afterEsc⟩ _ next
  · have hsame : s.finishOsc payload ([esc, 0x5D] ++ payload ++ [esc]) =
        s.take (Item.osc ([esc, 0x5D] ++ payload ++ []) payload true).written := by
      unfold Item.written Spans.take Spans.finishOsc
      cases hmark : markOf payload with
      | none => simp [Item.doubled, hmark]
      | some mark => cases mark with
        | prompt => simp [Item.doubled, hmark]
        | input | command | output | finished | other => simp [hmark, Spans.heed]
    simp only [inOsc, Item.ofOsc, hcap, step, hne, hst, finishOsc, hsame, atGround, if_true, if_false]
    exact handleAfterEsc_state ⟨_, [esc], [], .afterEsc⟩ _ next

@[simp] theorem ended_inOsc (payload : List UInt8) :
    (inOsc s payload).ended = s.take (.unended payload []) := by
  by_cases hcap : payload.length > oscCap
  · simp [inOsc, Item.unended, hcap, ended, emitPending, Spans.take]
  · simp [inOsc, Item.unended, hcap, ended, emitPending, Spans.take]

@[simp] theorem ended_step_inOsc (payload : List UInt8) :
    ((inOsc s payload).step esc).ended = s.take (.unended payload [esc]) := by
  have hne : ¬esc = bel := by decide
  by_cases hcap : payload.length > oscCap
  · simp [inOsc, Item.unended, hcap, step, hne, ended, emitPending, Spans.take]
  · simp [inOsc, Item.unended, hcap, step, hne, ended, emitPending, Spans.take]

/-- What ends a payload is `BEL` or `ESC`. -/
theorem eq_esc_of_dropWhile {tail rest : List UInt8} {last : UInt8}
    (h : tail.dropWhile inPayload = last :: rest) (hbel : last ≠ bel) : last = esc := by
  have hne : tail.dropWhile inPayload ≠ [] := by simp [h]
  have hlast := List.head_dropWhile_not inPayload hne
  simp only [h, List.head_cons, inPayload, Bool.and_eq_false_iff, decide_eq_false_iff_not, ne_eq,
    Decidable.not_not] at hlast
  exact hlast.resolve_left hbel

/-- The machine acts on the stream item by item. -/
theorem run_items (bytes : List UInt8) : ∀ s : Spans,
    ((atGround s).run bytes).ended = ((items bytes).map Item.written).foldl Spans.take s := by
  fun_induction items bytes with
  | case1 =>
    intro s
    simp [atGround, ended, emitPending]
  | case2 byte =>
    intro s
    by_cases hesc : byte = esc
    · simp [atGround, step, hesc, ended, emitPending, Spans.take]
    · simp [atGround, step, hesc, ended, emitPending, Spans.take]
  | case3 byte name tail hesc ih =>
    intro s
    have hih := ih (s.emit [byte])
    simpa [atGround, step, hesc, Spans.take] using hih
  | case4 byte tail hesc payload hend =>
    intro s
    rw [Decidable.not_not.mp hesc, run_introduced, hend, run_nil, ended_inOsc]
    simp [payload]
  | case5 byte tail hesc payload last hend =>
    intro s
    rw [Decidable.not_not.mp hesc, run_introduced, hend, run_cons, run_nil]
    by_cases hbel : last = bel
    · rw [hbel, step_inOsc_bel]
      simp [ended, emitPending, atGround, payload]
    · rw [eq_esc_of_dropWhile hend hbel, ended_step_inOsc, if_neg (by decide)]
      simp [payload]
  | case6 byte tail hesc payload next rest hend ih =>
    intro s
    rw [Decidable.not_not.mp hesc, run_introduced, hend, run_cons, step_inOsc_bel, ih, List.map_cons,
      Item.written_ofOsc, List.foldl_cons]
  | case7 byte tail hesc payload last rest hbel hend ih =>
    intro s
    rw [Decidable.not_not.mp hesc, run_introduced, hend, run_cons, run_cons,
      eq_esc_of_dropWhile hend hbel, step_inOsc_st, ih, List.map_cons, Item.written_ofOsc, List.foldl_cons]
  | case8 byte tail hesc payload last next rest hend hbel hst ih =>
    intro s
    rw [List.map_cons, List.foldl_cons, ← ih, Decidable.not_not.mp hesc, run_introduced, hend, run_cons, run_cons,
      run_cons, run_cons, eq_esc_of_dropWhile hend hbel, step_inOsc_bare hst]
  | case9 byte name tail hesc hosc hname ih =>
    intro s
    have hih := ih (s.emit (esc :: name :: (stringBody tail).1))
    have hstring : (atGround s).run (byte :: name :: tail) =
        (⟨s.emit [esc, name], [], [], .stringConsume⟩ : Distiller).run tail := by
      simp [atGround, Decidable.not_not.mp hesc, step, handleAfterEsc, hosc, hname, emitPending]
    rw [hstring, run_stringBody s tail [esc, name], Decidable.not_not.mp hesc]
    exact hih
  | case10 byte tail hesc hosc hname ih =>
    intro s
    have hih := ih (s.emit [esc])
    rw [Decidable.not_not.mp hesc]
    simpa [atGround, step, handleAfterEsc, hosc, hname, emitPending, Spans.take] using hih
  | case11 byte name tail hesc hosc hname hnext ih =>
    intro s
    have hih := ih (s.emit [esc, name])
    rw [Decidable.not_not.mp hesc]
    simpa [atGround, step, handleAfterEsc, hosc, hname, hnext, emitPending, Spans.take] using hih

end Distiller

@[simp] theorem Item.ofOsc_raw (payload ended : List UInt8) (bare : Bool) :
    (Item.ofOsc payload ended bare).raw = [esc, 0x5D] ++ payload ++ ended := by
  by_cases hcap : payload.length > oscCap
  · simp [Item.ofOsc, hcap]
  · simp [Item.ofOsc, hcap]

@[simp] theorem Item.unended_raw (payload ended : List UInt8) :
    (Item.unended payload ended).raw = [esc, 0x5D] ++ payload ++ ended := by
  by_cases hcap : payload.length > oscCap
  · simp [Item.unended, hcap]
  · simp [Item.unended, hcap]

/-- The items are the stream. -/
theorem items_raw (bytes : List UInt8) : (items bytes).flatMap Item.raw = bytes := by
  have htail := fun tail : List UInt8 => List.takeWhile_append_dropWhile (p := inPayload) (l := tail)
  fun_induction items bytes with
  | case1 => rfl
  | case2 byte => rfl
  | case3 byte name tail hesc ih => simp [ih]
  | case4 byte tail hesc payload hend =>
    conv_rhs => rw [Decidable.not_not.mp hesc, ← htail tail, hend]
    simp [payload]
  | case5 byte tail hesc payload last hend =>
    conv_rhs => rw [Decidable.not_not.mp hesc, ← htail tail, hend]
    by_cases hbel : last = bel
    · simp [payload, hbel]
    · simp [payload, hbel]
  | case6 byte tail hesc payload next rest hend ih =>
    conv_rhs => rw [Decidable.not_not.mp hesc, ← htail tail, hend]
    simp [payload, ih]
  | case7 byte tail hesc payload last rest hbel hend ih =>
    conv_rhs => rw [Decidable.not_not.mp hesc, ← htail tail, hend]
    simp [payload, ih]
  | case8 byte tail hesc payload last next rest hend hbel hst ih =>
    conv_rhs => rw [Decidable.not_not.mp hesc, ← htail tail, hend]
    simp [payload, ih]
  | case9 byte name tail hesc hosc hname ih => simp [ih, stringBody_append]
  | case10 byte tail hesc hosc hname ih => simp [ih]
  | case11 byte name tail hesc hosc hname hnext ih => simp [ih]

/-! ## §2 Spans -/

namespace Spans

variable {item : Item}

/-- Outside a span. -/
def idle (out : List UInt8) (mode : InputMode) : Spans := ⟨out, false, mode, [], none⟩

/-- In a span with this text so far, which waits or, over the cap, has gone
out. -/
def opened (out content : List UInt8) (command : Option (List UInt8)) : Spans :=
  if content.length > inputSpanCap then ⟨out ++ content, true, .passthrough, [], command⟩
  else ⟨out, true, .buffering, content, command⟩

/-- The output at the end of the stream. -/
def close (s : Spans) : List UInt8 :=
  if s.suppress ∧ s.inputMode = .buffering then s.out ++ s.inputBuffer else s.out

theorem emit_opened (out content bytes : List UInt8) (command : Option (List UInt8)) :
    (opened out content command).emit bytes = opened out (content ++ bytes) command := by
  by_cases hover : content.length > inputSpanCap
  · have hboth : (content ++ bytes).length > inputSpanCap := by
      simp only [List.length_append]
      omega
    simp only [opened, emit, hover, hboth, if_true]
    simp
  · simp only [opened, emit, hover, spillIfOverCap, if_false]
    simp

theorem close_opened (out content : List UInt8) (command : Option (List UInt8)) :
    (opened out content command).close = out ++ content := by
  by_cases hover : content.length > inputSpanCap
  · simp [opened, close, hover]
  · simp [opened, close, hover]

/-- An item that opens a span. -/
theorem take_idle_opens (h : item.opens) (out : List UInt8) (mode : InputMode) :
    (idle out mode).take item = opened out [] item.command := by
  cases item with
  | text bytes => cases h
  | oversized bytes => cases h
  | osc bytes payload bare =>
    simp only [Item.opens, Item.command, Item.mark, take, finishOsc] at h ⊢
    cases hmark : markOf payload with
    | none => simp [hmark] at h
    | some mark => cases mark with
      | input | command line => simp [heed, idle, opened]
      | prompt | output | finished | other => simp [hmark] at h

/-- An item in a span. -/
theorem take_opened (h : item.closes = false) (out content : List UInt8) (command : Option (List UInt8)) :
    (opened out content command).take item =
      opened out (content ++ item.content) (item.command.or command) := by
  cases item with
  | text bytes => exact emit_opened out content bytes command
  | oversized bytes => simp [take, Item.content, Item.command]
  | osc bytes payload bare =>
    cases hmark : markOf payload with
    | none =>
      have hemit := emit_opened out content bytes command
      simpa [take, finishOsc, hmark, Item.content, Item.command] using hemit
    | some mark => cases mark with
      | command line =>
        by_cases hover : content.length > inputSpanCap
        · simp [take, finishOsc, hmark, heed, opened, hover, Item.content, Item.command]
        · simp [take, finishOsc, hmark, heed, opened, hover, Item.content, Item.command]
      | other => simp [take, finishOsc, hmark, heed, Item.content, Item.command]
      | prompt | input | output | finished => simp [Item.closes, hmark] at h

/-- An item outside the spans. -/
theorem take_idle (h : item.opens = false) (out : List UInt8) (mode : InputMode) :
    (idle out mode).take item = idle (out ++ (Stretch.outside item).out) mode := by
  cases item with
  | text bytes => simp [take, emit, idle, Stretch.out, Item.isPrompt, Item.content]
  | oversized bytes => simp [take, idle, Stretch.out, Item.isPrompt, Item.content]
  | osc bytes payload bare =>
    cases hmark : markOf payload with
    | none =>
      simp [take, finishOsc, hmark, emit, idle, Stretch.out, Item.isPrompt, Item.content]
    | some mark => cases mark with
      | prompt | output | finished | other =>
        simp [take, finishOsc, hmark, heed, flushOpenInputSpan, idle, Stretch.out, Item.isPrompt,
          Item.content]
      | input | command line => simp [Item.opens, hmark] at h

/-- An item that closes a span acts as it does behind what the span leaves. -/
theorem take_opened_closes {closer : Item} (h : closer.closes) (opener : Item) (body : List Item) (out : List UInt8) :
    ∃ mode, (opened out (body.flatMap Item.content) (((opener :: body).filterMap Item.command).getLast?)).take closer =
      (idle (out ++ (Stretch.span opener body (some closer)).out) mode).take closer := by
  cases closer with
  | text bytes => cases h
  | oversized bytes => cases h
  | osc bytes payload bare =>
    simp only [Item.closes, Item.mark, Stretch.out, take, finishOsc, Option.bind_some] at h ⊢
    generalize body.flatMap Item.content = content
    generalize ((opener :: body).filterMap Item.command).getLast? = command
    cases hmark : markOf payload with
    | none => simp [hmark] at h
    | some mark =>
      by_cases hover : content.length > inputSpanCap
      · refine ⟨.passthrough, ?_⟩
        cases mark with
        | prompt | input | finished => simp [heed, flushOpenInputSpan, opened, idle, hover]
        | output => simp [heed, opened, idle, hover]
        | command line | other => simp [hmark] at h
      · refine ⟨.buffering, ?_⟩
        cases mark with
        | prompt | input | finished => simp [heed, flushOpenInputSpan, opened, idle, hover]
        | output =>
          cases hcommand : command.filter (fun line => !decide (line = [])) with
          | none => simp [heed, opened, idle, hover, hcommand]
          | some line => simp [heed, opened, idle, hover, hcommand]
        | command line | other => simp [hmark] at h

/-- Of two command lines the later one stands. -/
theorem last_command (item : Item) (body : List Item) : ((item :: body).filterMap Item.command).getLast? =
      (body.filterMap Item.command).getLast?.or item.command := by
  cases hcommand : item.command with
  | none => simp [hcommand]
  | some line =>
    cases hlast : (body.filterMap Item.command).getLast? with
    | none => simp [hcommand, hlast, List.getLast?_cons]
    | some last => simp [hcommand, hlast, List.getLast?_cons]

/-- The items of a span. -/
theorem foldl_take_opened (out : List UInt8) {body : List Item} (h : ∀ item ∈ body, item.closes = false) :
    ∀ (content : List UInt8) (command : Option (List UInt8)),
      body.foldl take (opened out content command) =
        opened out (content ++ body.flatMap Item.content) ((body.filterMap Item.command).getLast?.or command) := by
  induction body with
  | nil => simp
  | cons item body ih =>
    intro content command
    rw [List.foldl_cons, take_opened (h item List.mem_cons_self),
      ih fun item hitem => h item (List.mem_cons_of_mem _ hitem), last_command]
    simp [Option.or_assoc]

end Spans

/-! ## §3 The stream -/

theorem prompt_not_opens {item : Item} (h : item.isPrompt) : item.opens = false := by
  simp only [Item.isPrompt, decide_eq_true_eq] at h
  simp [Item.opens, h]

theorem prompt_closes {item : Item} (h : item.isPrompt) : item.closes := by
  simp only [Item.isPrompt, decide_eq_true_eq] at h
  simp [Item.closes, h]

/-- The stretches are the items. -/
theorem spansOf_items : (spansOf its).flatMap Stretch.items = its := by
  fun_induction spansOf its with
  | case1 => rfl
  | case2 item its hopens ih => simp [Stretch.items, ih]
  | case3 item its hopens ih => simp [Stretch.items, ih]

/-- No prompt is in a span. -/
theorem spansOf_prompts : (spansOf its).filterMap Stretch.prompt = its.filter Item.isPrompt := by
  fun_induction spansOf its with
  | case1 => rfl
  | case2 item its hopens ih =>
    have hitem : item.isPrompt = false := by
      cases hprompt : item.isPrompt with
      | false => rfl
      | true => simp [prompt_not_opens hprompt] at hopens
    have hbody : (its.takeWhile (!·.closes)).filter Item.isPrompt = [] := by
      rw [List.filter_eq_nil_iff]
      intro item hbody hprompt
      have hopen := List.mem_takeWhile_imp hbody
      simp [prompt_closes hprompt] at hopen
    have hrest : (its.dropWhile (!·.closes)).filter Item.isPrompt = its.filter Item.isPrompt := by
      conv_rhs => rw [← List.takeWhile_append_dropWhile (p := (!·.closes)) (l := its)]
      rw [List.filter_append, hbody, List.nil_append]
    rw [List.filterMap_cons_none rfl, ih, hrest, List.filter_cons_of_neg (by simp [hitem])]
  | case3 item its hopens ih =>
    cases hprompt : item.isPrompt with
    | false => simp [Stretch.prompt, hprompt, ih]
    | true => simp [Stretch.prompt, hprompt, ih]

/-- The items leave what their stretches leave. -/
theorem Spans.close_foldl_take : ∀ (out : List UInt8) (mode : InputMode),
    (its.foldl Spans.take (Spans.idle out mode)).close = out ++ (spansOf its).flatMap Stretch.out := by
  fun_induction spansOf its with
  | case1 =>
    intro out mode
    simp [Spans.close, Spans.idle]
  | case2 opener its hopens ih =>
    intro out mode
    have hbody : ∀ item ∈ its.takeWhile (!·.closes), item.closes = false := fun item hitem => by
      simpa using List.mem_takeWhile_imp hitem
    have hspan : its.foldl Spans.take (Spans.opened out [] opener.command) =
        (its.dropWhile (!·.closes)).foldl Spans.take
          (Spans.opened out ((its.takeWhile (!·.closes)).flatMap Item.content)
            ((opener :: its.takeWhile (!·.closes)).filterMap Item.command).getLast?) := by
      conv_lhs => rw [← List.takeWhile_append_dropWhile (p := (!·.closes)) (l := its)]
      rw [List.foldl_append, Spans.foldl_take_opened _ hbody, List.nil_append, Spans.last_command]
    rw [List.foldl_cons, Spans.take_idle_opens hopens, hspan, List.flatMap_cons]
    cases hrest : its.dropWhile (!·.closes) with
    | nil =>
      rw [List.foldl_nil, Spans.close_opened, List.head?_nil]
      simp [Stretch.out, spansOf]
    | cons closer rest =>
      have hcloses : closer.closes := by
        have hne : its.dropWhile (!·.closes) ≠ [] := by simp [hrest]
        simpa [hrest] using List.head_dropWhile_not (fun item : Item => !item.closes) hne
      obtain ⟨mode, htake⟩ := Spans.take_opened_closes hcloses opener (its.takeWhile (!·.closes)) out
      rw [List.foldl_cons, htake, ← List.foldl_cons, ← hrest, ih]
      simp [hrest]
  | case3 item its hopens ih =>
    intro out mode
    rw [List.foldl_cons, Spans.take_idle (by simpa using hopens), ih]
    simp

/-- A stretch of items as the machine writes them. -/
def Stretch.written : Stretch → Stretch
  | outside item => outside item.written
  | span opener body closer => span opener.written (body.map Item.written) (closer.map Item.written)

theorem spansOf_written : spansOf (its.map Item.written) = (spansOf its).map Stretch.written := by
  have hcloses : (fun item : Item => !item.closes) ∘ Item.written = fun item => !item.closes := by
    funext item
    simp [Item.closes]
  fun_induction spansOf its with
  | case1 => simp [spansOf]
  | case2 item its hopens ih =>
    have hwritten : item.written.opens := by simpa [Item.opens] using hopens
    rw [List.map_cons, spansOf, if_pos hwritten, List.takeWhile_map, List.dropWhile_map, hcloses, ih]
    simp [Stretch.written]
  | case3 item its hopens ih =>
    have hwritten : ¬item.written.opens := by simpa [Item.opens] using hopens
    rw [List.map_cons, spansOf, if_neg hwritten, ih]
    simp [Stretch.written]

theorem written_out {stretch : Stretch} (h : ∀ item ∈ stretch.items, item.doubled = false) :
    stretch.written.out = stretch.out := by
  cases stretch with
  | outside item => rw [Stretch.written, Item.written_of_not_doubled (h item List.mem_cons_self)]
  | span opener body closer =>
    have hbody : body.map Item.written = body := by
      conv_rhs => rw [← List.map_id body]
      exact List.map_congr_left fun item hitem => Item.written_of_not_doubled (h item (List.mem_cons_of_mem _ hitem))
    have hcloser : (closer.map Item.written).bind Item.mark = closer.bind Item.mark := by
      cases closer with
      | none => rfl
      | some closer => simp
    rw [Stretch.written, Item.written_of_not_doubled (h opener List.mem_cons_self), hbody]
    simp [Stretch.out, hcloser]

theorem distill_eq (bytes : List UInt8) :
    distill bytes = (spansOf (items bytes)).flatMap fun stretch => stretch.written.out := by
  have hrun : distill bytes = ((Distiller.atGround (Spans.idle [] .buffering)).run bytes).ended.close := rfl
  rw [hrun, Distiller.run_items, Spans.close_foldl_take, spansOf_written, List.nil_append, List.flatMap_map]

/-- Text without a mark is left as it is. -/
theorem spansOf_plain {its : List Item} (h : ∀ item ∈ its, item.plain) :
    (spansOf its).flatMap Stretch.out = its.flatMap Item.raw := by
  have hmark : ∀ item ∈ its, item.mark = none := fun item hitem => by
    have hplain := h item hitem
    cases item with
    | text | oversized => rfl
    | osc bytes payload bare => simpa using hplain
  fun_induction spansOf its with
  | case1 => rfl
  | case2 item its hopens ih => simp [Item.opens, hmark item List.mem_cons_self] at hopens
  | case3 item its hopens ih =>
    have hitem := h item List.mem_cons_self
    have hih := ih (List.forall_mem_cons.mp h).2 (List.forall_mem_cons.mp hmark).2
    simp [Stretch.out, Item.isPrompt, hmark item List.mem_cons_self, Item.content, hitem, hih]

/-- The stretches are the stream, and each leaves its own in the output, in
their order, unless an `ESC` comes twice in it; every prompt is one of them. -/
theorem distilled (bytes : List UInt8) :
    ((spansOf (items bytes)).flatMap Stretch.items).flatMap Item.raw = bytes ∧
      (∃ left : Stretch → List UInt8, distill bytes = (spansOf (items bytes)).flatMap left ∧
        ∀ stretch, (∀ item ∈ stretch.items, item.doubled = false) → left stretch = stretch.out) ∧
      (spansOf (items bytes)).filterMap Stretch.prompt = (items bytes).filter Item.isPrompt ∧
      ((∀ item ∈ items bytes, item.plain ∧ item.doubled = false) → distill bytes = bytes) := by
  refine ⟨?_, ⟨_, distill_eq bytes, fun _ => written_out⟩, spansOf_prompts _, ?_⟩
  · rw [spansOf_items, items_raw]
  · intro hplain
    have hout : (spansOf (items bytes)).flatMap (fun stretch => stretch.written.out) =
        (spansOf (items bytes)).flatMap Stretch.out := by
      rw [List.flatMap_def, List.flatMap_def]
      refine congrArg List.flatten (List.map_congr_left fun stretch hstretch => ?_)
      refine written_out fun item hitem => (hplain item ?_).2
      rw [← spansOf_items (items bytes)]
      exact List.mem_flatMap.mpr ⟨stretch, hstretch, hitem⟩
    rw [distill_eq, hout, spansOf_plain fun item hitem => (hplain item hitem).1, items_raw]

/-- A command line without a `B` before it opens a span all the same; a `B`
in a span starts it over; and a committed line may hold a prompt's mark. -/
theorem input_lost :
    let line : List UInt8 := [0x1B, 0x5D, 0x31, 0x33, 0x33, 0x3B, 0x45, 0x3B, 0x78, 0x07]
    let input : List UInt8 := [0x1B, 0x5D, 0x31, 0x33, 0x33, 0x3B, 0x42, 0x07]
    let output : List UInt8 := [0x1B, 0x5D, 0x31, 0x33, 0x33, 0x3B, 0x43, 0x07]
    let prompting : List UInt8 := [0x1B, 0x5D, 0x31, 0x33, 0x33, 0x3B, 0x45, 0x3B, 0x5C, 0x78, 0x31, 0x62, 0x5D, 0x31,
      0x33, 0x33, 0x3B, 0x41, 0x5C, 0x78, 0x30, 0x37, 0x07]
    distill (line ++ [0x79] ++ output) = [0x78, 0x0D, 0x0A] ∧
      distill (input ++ [0x78] ++ input ++ [0x79] ++ output) = [0x79] ∧
      (items (input ++ prompting ++ output)).countP Item.isPrompt = 0 ∧
      (items (distill (input ++ prompting ++ output))).countP Item.isPrompt = 1 := by
  decide +kernel

end SlopDesk.Sanitize
