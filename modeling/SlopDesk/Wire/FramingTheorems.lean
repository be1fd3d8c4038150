/-
SlopDesk.Wire.FramingTheorems — the frame decoder is a parser of the
whole stream, however the stream is cut and whenever it is asked.

§1 says what parsing the whole stream at once is: `cutFrame` splits off
the first frame and `parseStream` goes on from the rest, up to the first
fault. §2 shows one `nextPayload` doing exactly the first of those steps
on the bytes still pending, whatever the compaction schedule did to the
buffer. §3 runs it: the answers so far, followed by what parsing the
pending bytes would answer, is what parsing the whole stream answers,
and stays so under any extension of the stream.
-/
import SlopDesk.Base.Runs
import SlopDesk.Wire.CodecTheorems
import SlopDesk.Wire.Framing

namespace SlopDesk.Wire

open SlopDesk.Base

variable {bytes payload rest : List UInt8}
variable (more : List UInt8)

/-! ## §1 Parsing the whole stream at once -/

/-- What stands at the front of a stream. -/
inductive Cut where
  | incomplete
  | tooLarge (length : Nat)
  | frame (payload rest : List UInt8)

/-- What the first four bytes of a stream declare. -/
def declaredLength (bytes : List UInt8) : Nat := ofBe 0 (bytes.take prefixLength)

/-- The first frame of a stream, if all of it is there. -/
def cutFrame (bytes : List UInt8) : Cut :=
  if bytes.length < prefixLength then .incomplete
  else if declaredLength bytes > maxFramePayloadLength then .tooLarge (declaredLength bytes)
  else if bytes.length < prefixLength + declaredLength bytes then .incomplete
  else .frame ((bytes.drop prefixLength).take (declaredLength bytes))
    (bytes.drop (prefixLength + declaredLength bytes))

theorem cutFrame_eq_tooLarge {length : Nat} : cutFrame bytes = .tooLarge length ↔
      prefixLength ≤ bytes.length ∧ maxFramePayloadLength < declaredLength bytes ∧
      declaredLength bytes = length := by
  unfold cutFrame
  split
  · simp; omega
  · split
    · simp; omega
    · split <;> simp <;> omega

theorem cutFrame_eq_incomplete : cutFrame bytes = .incomplete ↔ bytes.length < prefixLength ∨
      (declaredLength bytes ≤ maxFramePayloadLength ∧
      bytes.length < prefixLength + declaredLength bytes) := by
  unfold cutFrame
  split
  · simp; omega
  · split
    · simp; omega
    · split <;> simp <;> omega

theorem cutFrame_eq_frame : cutFrame bytes = .frame payload rest ↔
      prefixLength + declaredLength bytes ≤ bytes.length ∧
      declaredLength bytes ≤ maxFramePayloadLength ∧
      (bytes.drop prefixLength).take (declaredLength bytes) = payload ∧
      bytes.drop (prefixLength + declaredLength bytes) = rest := by
  unfold cutFrame
  split
  · simp; omega
  · grind

theorem cutFrame_rest_lt (h : cutFrame bytes = .frame payload rest) : rest.length < bytes.length := by
  obtain ⟨hlen, _, _, rfl⟩ := cutFrame_eq_frame.mp h
  simp only [List.length_drop, prefixLength] at hlen ⊢
  omega

theorem declaredLength_append
    (h : prefixLength ≤ bytes.length) : declaredLength (bytes ++ more) = declaredLength bytes := by
  rw [declaredLength, declaredLength, List.take_append_of_le_length h]

theorem cutFrame_tooLarge_append {length : Nat}
    (h : cutFrame bytes = .tooLarge length) : cutFrame (bytes ++ more) = .tooLarge length := by
  obtain ⟨hlen, hbig, heq⟩ := cutFrame_eq_tooLarge.mp h
  rw [cutFrame_eq_tooLarge, declaredLength_append more hlen, List.length_append]
  exact ⟨by omega, hbig, heq⟩

theorem cutFrame_frame_append (h : cutFrame bytes = .frame payload rest) :
    cutFrame (bytes ++ more) = .frame payload (rest ++ more) := by
  obtain ⟨hlen, hsmall, rfl, rfl⟩ := cutFrame_eq_frame.mp h
  rw [cutFrame_eq_frame, declaredLength_append more (by omega), List.length_append]
  refine ⟨by omega, hsmall, ?_, ?_⟩
  · rw [List.drop_append_of_le_length (by omega),
      List.take_append_of_le_length (by simp only [List.length_drop]; omega)]
  · rw [List.drop_append_of_le_length (by omega)]

/-- The messages of a stream, and the fault that ends it if there is one. -/
def parseStream (decode : List UInt8 → Outcome WireError α) (bytes : List UInt8) :
    List (Outcome WireError α) :=
  match _h : cutFrame bytes with
  | .incomplete => []
  | .tooLarge length => [.fault (.frameTooLarge length)]
  | .frame payload rest =>
    match decode payload with
    | .ok message => .ok message :: parseStream decode rest
    | .fault error => [.fault error]
    | .panicked => [.panicked]
termination_by bytes.length
decreasing_by exact cutFrame_rest_lt _h

section

variable {decode : List UInt8 → Outcome WireError α}

theorem parseStream_incomplete {bytes : List UInt8} (h : cutFrame bytes = .incomplete) :
    parseStream decode bytes = [] := by
  rw [parseStream]
  split <;> simp_all

theorem parseStream_tooLarge {bytes : List UInt8} {length : Nat} (h : cutFrame bytes = .tooLarge length) :
    parseStream decode bytes = [.fault (.frameTooLarge length)] := by
  rw [parseStream]
  split <;> simp_all

theorem parseStream_ok {bytes payload rest : List UInt8} {message : α}
    (h : cutFrame bytes = .frame payload rest) (hd : decode payload = .ok message) :
    parseStream decode bytes = .ok message :: parseStream decode rest := by
  rw [parseStream]
  split <;> simp_all

theorem parseStream_fault {bytes payload rest : List UInt8} {error : WireError}
    (h : cutFrame bytes = .frame payload rest) (hd : decode payload = .fault error) :
    parseStream decode bytes = [.fault error] := by
  rw [parseStream]
  split <;> simp_all

end

/-! ## §2 One call -/

namespace PrefixedReader

variable {r : PrefixedReader} {payload : List UInt8}
variable (elide : Bool)

/-- The bytes a reader has yet to parse. -/
def pending (r : PrefixedReader) : List UInt8 := r.buffer.drop r.readOffset

section

variable (r : PrefixedReader)

@[simp] theorem pending_compactConsumed : r.compactConsumed.pending = r.pending := by
  unfold compactConsumed
  split
  · simp [pending]
  · rfl

@[simp] theorem fault_compactConsumed : r.compactConsumed.fault = r.fault := by
  unfold compactConsumed
  split <;> rfl

@[simp] theorem pending_compact (elide : Bool) :
    (r.compact elide).pending = r.pending := by
  cases elide with
  | true => rfl
  | false => exact pending_compactConsumed r

@[simp] theorem fault_compact (elide : Bool) : (r.compact elide).fault = r.fault := by
  cases elide with
  | true => rfl
  | false => exact fault_compactConsumed r

@[simp] theorem pending_settleOwedCompaction :
    r.settleOwedCompaction.pending = r.pending := by
  unfold settleOwedCompaction
  split
  · rw [pending_compactConsumed]; rfl
  · rfl

@[simp] theorem fault_settleOwedCompaction :
    r.settleOwedCompaction.fault = r.fault := by
  unfold settleOwedCompaction
  split
  · rw [fault_compactConsumed]
  · rfl

end

@[simp] theorem pending_append (data : List UInt8) (h : r.fault = none) :
    (r.append data).pending = r.pending ++ data := by
  have hcursor := r.settleOwedCompaction.cursor_le
  rw [append, if_neg (by simp [h]), ← pending_settleOwedCompaction r]
  exact List.drop_append_of_le_length hcursor

@[simp] theorem fault_append (r : PrefixedReader) (data : List UInt8) :
    (r.append data).fault = r.fault := by
  unfold append
  split
  · rfl
  · exact fault_settleOwedCompaction r

theorem length_pending (r : PrefixedReader) :
    r.pending.length = r.buffer.length - r.readOffset := List.length_drop

theorem readPrefix_eq (h : prefixLength ≤ r.pending.length) : r.readPrefix = declaredLength r.pending := by
  rw [length_pending] at h
  have hcursor := r.cursor_le
  have hget : ByteRange.get? ⟨r.readOffset, r.readOffset + prefixLength⟩ r.buffer
      = some (r.pending.take prefixLength) := by
    rw [get?_of_le (by omega) (by omega), Nat.add_sub_cancel_left]
    rfl
  rw [readPrefix, hget, declaredLength]

theorem frame_buffered {s : PrefixedReader}
    (h : ¬ s.buffer.length - s.readOffset < prefixLength + s.readPrefix) :
    s.readOffset + (prefixLength + s.readPrefix) ≤ s.buffer.length := by
  have hcursor := s.cursor_le
  omega

section

variable (decode : List UInt8 → Outcome WireError (τ × ByteRange))

theorem nextPayload_eq (h : r.fault = none) : r.nextPayload elide decode =
      let s := r.settleOwedCompaction
      if s.pending.length < prefixLength then (.ok none, s.compact elide)
      else if s.readPrefix > maxFramePayloadLength then
        (.fault (.frameTooLarge s.readPrefix), s.poison (.frameTooLarge s.readPrefix))
      else if h : s.buffer.length - s.readOffset < prefixLength + s.readPrefix then
        (.ok none, s.compact elide)
      else s.takeFrame elide decode s.readPrefix (frame_buffered h) := by
  simp only [nextPayload, h, length_pending]

theorem nextPayload_incomplete (h : r.fault = none) (hcut : cutFrame r.pending = .incomplete) :
    ∃ r', r.nextPayload elide decode = (.ok none, r') ∧ r'.pending = r.pending ∧
      r'.fault = none := by
  have hpending := pending_settleOwedCompaction r
  have hcompact : (r.settleOwedCompaction.compact elide).pending = r.pending ∧
      (r.settleOwedCompaction.compact elide).fault = none := by simp [h]
  refine ⟨r.settleOwedCompaction.compact elide, ?_, hcompact.1, hcompact.2⟩
  rw [nextPayload_eq elide decode h]
  by_cases hshort : r.settleOwedCompaction.pending.length < prefixLength
  case pos => rw [if_pos hshort]
  case neg =>
    have hread := readPrefix_eq (Nat.le_of_not_lt hshort)
    have hlength := length_pending r.settleOwedCompaction
    rw [hpending] at hread hshort hlength
    rcases cutFrame_eq_incomplete.mp hcut with hlt | ⟨hsmall, hlt⟩
    · omega
    · rw [if_neg (by rw [hpending]; exact hshort), if_neg (by omega), dif_pos (by omega)]

theorem nextPayload_tooLarge (h : r.fault = none) {length : Nat}
    (hcut : cutFrame r.pending = .tooLarge length) : r.nextPayload elide decode =
      (.fault (.frameTooLarge length), r.poison (.frameTooLarge length)) := by
  obtain ⟨hlen, hbig, rfl⟩ := cutFrame_eq_tooLarge.mp hcut
  have hpending := pending_settleOwedCompaction r
  have hread := readPrefix_eq (r := r.settleOwedCompaction) (by rw [hpending]; exact hlen)
  rw [hpending] at hread
  rw [nextPayload_eq elide decode h]
  rw [if_neg (by rw [hpending]; omega), if_pos (by omega), hread]
  rfl

theorem nextPayload_frame (h : r.fault = none)
    {rest : List UInt8} (hcut : cutFrame r.pending = .frame payload rest) :
    ∃ (s : PrefixedReader) (n : Nat) (hfits : s.readOffset + (prefixLength + n) ≤ s.buffer.length),
      r.nextPayload elide decode = s.takeFrame elide decode n hfits ∧ s.fault = none ∧
      ByteRange.get? ⟨s.readOffset + prefixLength, s.readOffset + (prefixLength + n)⟩ s.buffer
        = some payload ∧
      s.buffer.drop (s.readOffset + (prefixLength + n)) = rest := by
  obtain ⟨hlen, hsmall, rfl, rfl⟩ := cutFrame_eq_frame.mp hcut
  have hpending := pending_settleOwedCompaction r
  have hread := readPrefix_eq (r := r.settleOwedCompaction) (by rw [hpending]; omega)
  have hlength := length_pending r.settleOwedCompaction
  have hcursor := r.settleOwedCompaction.cursor_le
  rw [hpending] at hread hlength
  refine ⟨r.settleOwedCompaction, r.settleOwedCompaction.readPrefix, by omega, ?_, by simp [h],
    ?_, ?_⟩
  · rw [nextPayload_eq elide decode h]
    rw [if_neg (by rw [hpending]; omega), if_neg (by omega), dif_neg (by omega)]
  · rw [get?_of_le (by omega) (by omega), hread, ← hpending, pending, List.drop_drop]
    congr 2
    omega
  · rw [hread, ← hpending, pending, List.drop_drop]

end

theorem get?_shift {buffer bytes : List UInt8} {start stop : Nat} {run : ByteRange}
    (hslice : ByteRange.get? ⟨start, stop⟩ buffer = some payload) (hrun : run.get? payload = some bytes) :
    ByteRange.get? ⟨start + run.start, start + run.stop⟩ buffer = some bytes := by
  obtain ⟨hle, hfits⟩ := inside_of_get? hslice
  obtain ⟨hle', hfits'⟩ := inside_of_get? hrun
  dsimp only at hle hfits
  rw [get?_of_le hle hfits, Option.some.injEq] at hslice
  subst hslice
  rw [ByteRange.get?, if_pos ⟨hle', hfits'⟩, Option.some.injEq] at hrun
  simp only [List.length_take, List.length_drop] at hfits'
  rw [get?_of_le (by omega) (by omega), ← hrun, List.drop_take, List.drop_drop, List.take_take]
  congr 2
  omega

/-- An accepted payload: its bytes are consumed, and when it was left in
place the span answered selects its run in the buffer. -/
theorem nextPayload_ok (decode : List UInt8 → Outcome WireError (τ × ByteRange)) (h : r.fault = none)
    {rest : List UInt8} {value : τ} {run : ByteRange}
    (hcut : cutFrame r.pending = .frame payload rest) (hd : decode payload = .ok (value, run)) :
    ∃ r' span, r.nextPayload elide decode = (.ok (some (value, span)), r') ∧
      r'.pending = rest ∧ r'.fault = none ∧
      (elide = true → ∀ bytes, run.get? payload = some bytes → span.get? r'.buffer = some bytes) := by
  obtain ⟨s, n, hfits, hnext, hfault, hslice, hrest⟩ := nextPayload_frame elide decode h hcut
  let moved := s.advance (prefixLength + n) hfits
  let settled := if moved.readOffset ≥ compactionThreshold then moved.compact elide else moved
  have hsettled : settled.pending = moved.pending ∧ settled.fault = moved.fault ∧
      (elide = true → settled.buffer = moved.buffer) := by
    by_cases hbig : moved.readOffset ≥ compactionThreshold
    · simp only [settled, if_pos hbig, pending_compact, fault_compact, true_and]
      intro helide
      rw [helide]
      rfl
    · grind
  obtain ⟨hpending, hnone, hbuffer⟩ := hsettled
  refine ⟨settled, ⟨s.readOffset + prefixLength + run.start, s.readOffset + prefixLength + run.stop⟩,
    ?_, hpending.trans hrest, hnone.trans hfault, ?_⟩
  · rw [hnext]
    simp only [takeFrame, hslice, hd]
    rfl
  · intro helide bytes hbytes
    rw [hbuffer helide]
    exact get?_shift hslice hbytes

theorem nextPayload_fault (decode : List UInt8 → Outcome WireError (τ × ByteRange)) (h : r.fault = none)
    {rest : List UInt8} {error : WireError}
    (hcut : cutFrame r.pending = .frame payload rest) (hd : decode payload = .fault error) :
    r.nextPayload elide decode = (.fault error, r.poison error) := by
  obtain ⟨s, n, hfits, hnext, _, hslice, _⟩ := nextPayload_frame elide decode h hcut
  rw [hnext]
  simp only [takeFrame, hslice, hd]
  rfl

end PrefixedReader

/-! ## §3 Runs -/

/-- One call on a frame decoder. -/
inductive Call where
  | append (chunk : List UInt8)
  | next
  | nextLeavingRun
  deriving DecidableEq

/-- Whether a call asks for a message. -/
def Call.asks : Call → Bool
  | .append _ => false
  | _ => true

/-- What an outcome of `next_message` hands its caller: nothing while no
whole frame is buffered, else a message or a fault. -/
def answered : Outcome WireError (Option α) → List (Outcome WireError α)
  | .ok none => []
  | .ok (some message) => [.ok message]
  | .fault error => [.fault error]
  | .panicked => [.panicked]

/-- One call: its answer, and the decoder after. The answer of an eliding
call is its message with the bytes the decoder then holds under the
answered span put back. -/
def FrameDecoder.call (d : FrameDecoder) :
    Call → List (Outcome WireError WireMessage) × FrameDecoder
  | .append chunk => ([], d.append chunk)
  | .next => (answered d.nextMessage.1, d.nextMessage.2)
  | .nextLeavingRun =>
    let r := d.nextMessageLeavingOpaqueRun
    (answered (r.1 >>= fun answer =>
      pure (answer.map fun a => a.1.withRun (r.2.runBytes a.2))), r.2)

/-- A decoder with what it was handed and what it handed back. -/
structure Session where
  decoder : FrameDecoder
  stream : List UInt8
  answers : List (Outcome WireError WireMessage)

namespace Session

def start : Session := ⟨.new, [], []⟩

def step (s : Session) (c : Call) : Session :=
  let r := s.decoder.call c
  { decoder := r.2
    stream := match c with
      | .append chunk => s.stream ++ chunk
      | _ => s.stream
    answers := s.answers ++ r.1 }

end Session

/-- The answers up to the first that is no message, that one included. -/
def uptoFault : List (Outcome WireError α) → List (Outcome WireError α)
  | [] => []
  | .ok message :: rest => .ok message :: uptoFault rest
  | other :: _ => [other]

theorem uptoFault_messages (ms : List α) :
    uptoFault (ms.map Outcome.ok : List (Outcome WireError α)) = ms.map .ok := by
  induction ms with
  | nil => rfl
  | cons m ms ih => simp only [List.map_cons, uptoFault, ih]

theorem uptoFault_faulted (ms : List α) (e : WireError) (k : Nat) :
    uptoFault (ms.map .ok ++ List.replicate (k + 1) (.fault e)) = ms.map .ok ++ [.fault e] := by
  induction ms with
  | nil => rfl
  | cons m ms ih => simp only [List.map_cons, List.cons_append, uptoFault, ih]

/-- The two payload closures accept alike: a plain message, or the same
message with its run left in the payload; and they refuse alike. -/
theorem decodePayload_cases (elide : Bool) (payload : List UInt8) :
    (∃ message value run, decode payload = .ok message ∧
      FrameDecoder.decodePayload elide payload = .ok (value, run) ∧
      (elide = false → value = message) ∧
      (elide = true → run.get? payload = some message.opaqueRun ∧
        value.withRun message.opaqueRun = message)) ∨
    ∃ e, decode payload = .fault e ∧ FrameDecoder.decodePayload elide payload = .fault e := by
  have hagree : Outcome.Agree (Elides payload) (decodeLeavingOpaqueRun payload)
      (decode payload) :=
    (agree_decodeInner payload 0 (Nat.zero_le _)).bind fun _ _ h => h.2.2
  rcases hagree.cases with ⟨r, message, helided, hplain, hel⟩ | ⟨e, helided, hplain⟩
  · left
    cases elide with
    | false =>
      exact ⟨message, message, ⟨0, 0⟩, hplain, by simp [FrameDecoder.decodePayload, hplain],
        fun _ => rfl, fun h => by cases h⟩
    | true =>
      exact ⟨message, r.1, r.2, hplain, by simp [FrameDecoder.decodePayload, helided],
        (fun h => by cases h), fun _ => ⟨hel.selects, hel.putBack⟩⟩
  · simp [FrameDecoder.decodePayload, hplain, helided]

namespace FrameDecoder

variable {d : FrameDecoder}

/-- The decoder a fault leaves behind, whichever state it struck in. -/
def poisoned (e : WireError) : FrameDecoder := ⟨PrefixedReader.new.poison e⟩

/-- The bytes a decoder has yet to parse. -/
def pending (d : FrameDecoder) : List UInt8 := d.reader.pending

/-- Everything `next_inner` can do on a decoder with no fault: wait for
more bytes, take the first frame off, or fault as the parse does. -/
theorem nextInner_cases (d : FrameDecoder) (elide : Bool) (h : d.reader.fault = none) :
    (∃ d', d.nextInner elide = (.ok none, d') ∧ d'.reader.fault = none ∧
      d'.pending = d.pending ∧ parseStream decode d.pending = []) ∨
    (∃ message value span d', d.nextInner elide = (.ok (some (value, span)), d') ∧
      d'.reader.fault = none ∧
      (∀ more, parseStream decode (d.pending ++ more)
        = .ok message :: parseStream decode (d'.pending ++ more)) ∧
      (elide = false → value = message) ∧
      (elide = true → span.get? d'.reader.buffer = some message.opaqueRun ∧
        value.withRun message.opaqueRun = message)) ∨
    ∃ e, d.nextInner elide = (.fault e, poisoned e) ∧
      ∀ more, parseStream decode (d.pending ++ more) = [.fault e] := by
  cases hcut : cutFrame d.pending with
  | incomplete =>
    obtain ⟨r', hnext, hpending, hfault⟩ :=
      PrefixedReader.nextPayload_incomplete elide (decodePayload elide) h hcut
    exact .inl ⟨⟨r'⟩, by rw [nextInner, hnext], hfault, hpending, parseStream_incomplete hcut⟩
  | tooLarge length =>
    have hnext := PrefixedReader.nextPayload_tooLarge elide (decodePayload elide) h hcut
    refine .inr (.inr ⟨.frameTooLarge length, by rw [nextInner, hnext]; rfl, ?_⟩)
    intro more
    exact parseStream_tooLarge (cutFrame_tooLarge_append more hcut)
  | frame payload rest =>
    rcases decodePayload_cases elide payload with
      ⟨message, value, run, hplain, hpayload, hcopy, hspan⟩ | ⟨e, hplain, hpayload⟩
    · obtain ⟨r', span, hnext, hpending, hfault, hselects⟩ :=
        PrefixedReader.nextPayload_ok elide (decodePayload elide) h hcut hpayload
      refine .inr (.inl ⟨message, value, span, ⟨r'⟩, by rw [nextInner, hnext], hfault,
        ?_, hcopy, ?_⟩)
      · intro more
        rw [parseStream_ok (cutFrame_frame_append more hcut) hplain, ← hpending]
        rfl
      · grind
    · have hnext := PrefixedReader.nextPayload_fault elide (decodePayload elide) h hcut hpayload
      refine .inr (.inr ⟨e, by rw [nextInner, hnext]; rfl, ?_⟩)
      intro more
      exact parseStream_fault (cutFrame_frame_append more hcut) hplain

theorem call_asks {c : Call} (hc : c.asks = true) (h : d.reader.fault = none) :
    (∃ ms d', d.call c = (ms.map .ok, d') ∧ d'.reader.fault = none ∧
      (∀ more, parseStream decode (d.pending ++ more)
        = ms.map .ok ++ parseStream decode (d'.pending ++ more)) ∧
      (ms = [] → parseStream decode d'.pending = [])) ∨
    ∃ e, d.call c = ([.fault e], poisoned e) ∧
      ∀ more, parseStream decode (d.pending ++ more) = [.fault e] := by
  cases c with
  | append chunk => cases hc
  | next =>
    rcases nextInner_cases d false h with ⟨d', hnext, hfault, hpending, hparse⟩ |
      ⟨message, value, span, d', hnext, hfault, hparse, hcopy, _⟩ | ⟨e, hnext, hparse⟩
    · exact .inl ⟨[], d', by simp [call, nextMessage, hnext, answered], hfault,
        by simp [hpending], by simp [hpending, hparse]⟩
    · exact .inl ⟨[message], d', by simp [call, nextMessage, hnext, answered, hcopy], hfault,
        by simpa using hparse, by simp⟩
    · exact .inr ⟨e, by simp [call, nextMessage, hnext, answered], hparse⟩
  | nextLeavingRun =>
    rcases nextInner_cases d true h with ⟨d', hnext, hfault, hpending, hparse⟩ |
      ⟨message, value, span, d', hnext, hfault, hparse, _, hspan⟩ | ⟨e, hnext, hparse⟩
    · exact .inl ⟨[], d', by simp [call, nextMessageLeavingOpaqueRun, hnext, answered], hfault,
        by simp [hpending], by simp [hpending, hparse]⟩
    · obtain ⟨hget, hback⟩ := hspan rfl
      exact .inl ⟨[message], d', by simp [call, nextMessageLeavingOpaqueRun, hnext, answered,
        runBytes, PrefixedReader.bytes, hget, hback], hfault, by simpa using hparse, by simp⟩
    · exact .inr ⟨e, by simp [call, nextMessageLeavingOpaqueRun, hnext, answered], hparse⟩

theorem nextMessage_of_parse (h : d.reader.fault = none)
    {message : WireMessage} {rest : List (Outcome WireError WireMessage)}
    (hparse : parseStream decode d.pending = .ok message :: rest) :
    d.nextMessage.1 = .ok (some message) := by
  rcases nextInner_cases d false h with ⟨d', _, _, _, hnone⟩ |
    ⟨message', value, span, d', hplain, _, hsome, hcopy, _⟩ | ⟨e, _, hfault⟩
  · rw [hparse] at hnone
    cases hnone
  · have hnow := hsome []
    simp only [List.append_nil] at hnow
    rw [hparse, List.cons.injEq, Outcome.ok.injEq] at hnow
    simp [nextMessage, hplain, hcopy, hnow.1]
  · have hnow := hfault []
    simp only [List.append_nil] at hnow
    rw [hparse] at hnow
    cases hnow

/-- Where leaving the run in the buffer answers a message, the plain call
answers the same one with its run, and the span selects that run. -/
theorem nextMessageLeavingOpaqueRun_agrees {d' : FrameDecoder} (h : d.reader.fault = none)
    {value : WireMessage} {span : ByteRange}
    (hnext : d.nextMessageLeavingOpaqueRun = (.ok (some (value, span)), d')) :
    ∃ message, d.nextMessage.1 = .ok (some message) ∧
      span.get? d'.reader.buffer = some message.opaqueRun ∧
      d'.runBytes span = message.opaqueRun ∧ value.withRun (d'.runBytes span) = message := by
  rcases nextInner_cases d true h with ⟨d₁, hinner, _⟩ |
    ⟨message, value₁, span₁, d₁, hinner, _, hparse, _, hspan⟩ | ⟨e, hinner, _⟩
  · rw [nextMessageLeavingOpaqueRun, hinner] at hnext
    cases hnext
  · rw [nextMessageLeavingOpaqueRun, hinner] at hnext
    cases hnext
    obtain ⟨hget, hback⟩ := hspan rfl
    have hbytes : d'.runBytes span = message.opaqueRun := by
      rw [runBytes, PrefixedReader.bytes, hget]
      rfl
    have hnow := hparse []
    simp only [List.append_nil] at hnow
    exact ⟨message, nextMessage_of_parse h hnow, hget, hbytes, by rw [hbytes, hback]⟩
  · rw [nextMessageLeavingOpaqueRun, hinner] at hnext
    cases hnext

theorem call_poisoned (e : WireError) (c : Call) :
    (poisoned e).call c = (if c.asks then [.fault e] else [], poisoned e) := by
  cases c <;> rfl

end FrameDecoder

/-! ## §4 The stream and the answers -/

namespace Session

variable {s : Session} {e : WireError}

@[simp] theorem step_decoder (s : Session) (c : Call) : (s.step c).decoder = (s.decoder.call c).2 := rfl
@[simp] theorem step_answers (s : Session) (c : Call) :
    (s.step c).answers = s.answers ++ (s.decoder.call c).1 := rfl

theorem stream_asks {c : Call} (hc : c.asks = true) : (s.step c).stream = s.stream := by
  cases c with
  | append chunk => cases hc
  | next => rfl
  | nextLeavingRun => rfl

/-- No fault yet: the answers so far are messages, and with what the
pending bytes parse to they are what the stream parses to, whatever
follows it. -/
def Live (s : Session) : Prop :=
  s.decoder.reader.fault = none ∧ ∃ ms : List WireMessage, s.answers = ms.map .ok ∧
    ∀ more, parseStream decode (s.stream ++ more)
      = ms.map .ok ++ parseStream decode (s.decoder.pending ++ more)

/-- Faulted with `e`: the stream parses to the messages answered and that
fault, whatever follows it. -/
def Dead (e : WireError) (s : Session) : Prop :=
  s.decoder = .poisoned e ∧ ∃ (ms : List WireMessage) (k : Nat),
    s.answers = ms.map .ok ++ List.replicate (k + 1) (.fault e) ∧
    ∀ more, parseStream decode (s.stream ++ more) = ms.map .ok ++ [.fault e]

/-- What every session keeps. -/
def Inv (s : Session) : Prop := s.Live ∨ ∃ e, s.Dead e

theorem live_start : Live start :=
  ⟨rfl, [], rfl, fun _ => rfl⟩

theorem Live.append (h : s.Live) (chunk : List UInt8) : (s.step (.append chunk)).Live := by
  obtain ⟨hfault, ms, hanswers, hparse⟩ := h
  refine ⟨?_, ms, ?_, ?_⟩
  · exact (PrefixedReader.fault_append _ _).trans hfault
  · simp [step, FrameDecoder.call, hanswers]
  · intro more
    have hpending : (s.step (.append chunk)).decoder.pending = s.decoder.pending ++ chunk :=
      PrefixedReader.pending_append chunk hfault
    rw [hpending, List.append_assoc, ← hparse]
    simp [step]

theorem Live.asks (h : s.Live) {c : Call} (hc : c.asks = true) :
    ((s.step c).Live ∧ (s.step c).stream = s.stream ∧
      ((parseStream decode (s.step c).decoder.pending = []) ∨
      (parseStream decode (s.step c).decoder.pending).length
        < (parseStream decode s.decoder.pending).length)) ∨
    ∃ e, (s.step c).Dead e ∧ (s.step c).stream = s.stream := by
  obtain ⟨hfault, ms, hanswers, hparse⟩ := h
  have hstream := stream_asks (s := s) hc
  rcases FrameDecoder.call_asks hc hfault with ⟨new, d', hcall, hlive, hmore, hdone⟩ |
    ⟨e, hcall, hmore⟩
  · left
    refine ⟨⟨by simp [hcall, hlive], ms ++ new, by simp [hcall, hanswers],
      ?_⟩, hstream, ?_⟩
    · intro more
      rw [hstream, hparse, hmore]
      simp [hcall]
    · have hnow := hmore []
      simp only [List.append_nil] at hnow
      cases new with
      | nil => exact .inl (by simpa [hcall] using hdone rfl)
      | cons m new =>
        simp only [step_decoder, hcall, hnow, List.length_append, List.length_map, List.length_cons]
        omega
  · right
    refine ⟨e, ⟨by simp [hcall], ms, 0, by simp [hcall, hanswers], ?_⟩, hstream⟩
    intro more
    rw [hstream, hparse, hmore]

/-- After a fault nothing moves: the decoder stays as it is, and every
call that asks is answered the fault. -/
theorem Dead.run (h : s.decoder = .poisoned e) (calls : List Call) :
    (run step s calls).decoder = s.decoder ∧
    (run step s calls).answers
      = s.answers ++ List.replicate (calls.countP Call.asks) (.fault e) := by
  induction calls generalizing s with
  | nil => simp
  | cons c calls ih =>
    have hcall := FrameDecoder.call_poisoned e c
    have hstep : (s.step c).decoder = .poisoned e ∧
        (s.step c).answers = s.answers ++ (if c.asks then [.fault e] else []) := by
      rw [step_decoder, step_answers, h, hcall]
      exact ⟨rfl, rfl⟩
    obtain ⟨hdecoder, hanswers⟩ := ih hstep.1
    refine ⟨by rw [run_cons, hdecoder, hstep.1, h], ?_⟩
    rw [run_cons, hanswers, hstep.2, List.countP_cons]
    cases c.asks <;> simp [List.replicate_succ]

theorem Dead.step (h : s.Dead e) (c : Call) : (s.step c).Dead e := by
  obtain ⟨hdecoder, ms, k, hanswers, hparse⟩ := h
  have hrun := Dead.run hdecoder [c]
  simp only [run_cons, run_nil] at hrun
  refine ⟨hrun.1.trans hdecoder, ms, k + [c].countP Call.asks, ?_, ?_⟩
  · rw [hrun.2, hanswers, List.append_assoc, List.replicate_append_replicate]
    congr 2
    omega
  · intro more
    cases c with
    | append chunk => simpa [Session.step] using hparse (chunk ++ more)
    | next => exact hparse more
    | nextLeavingRun => exact hparse more

theorem Inv.step (h : s.Inv) (c : Call) : (s.step c).Inv := by
  rcases h with hlive | ⟨e, hdead⟩
  · cases hc : c.asks with
    | false =>
      cases c with
      | append chunk => exact .inl (hlive.append chunk)
      | next => cases hc
      | nextLeavingRun => cases hc
    | true =>
      rcases hlive.asks hc with ⟨hlive', _⟩ | ⟨e, hdead, _⟩
      · exact .inl hlive'
      · exact .inr ⟨e, hdead⟩
  · exact .inr ⟨e, hdead.step c⟩

theorem inv_run (calls : List Call) : (run step start calls).Inv :=
  run_invariant Inv (fun _ c h => Inv.step h c) (.inl live_start) calls

theorem Live.answers_isPrefix (h : s.Live) : uptoFault s.answers <+: parseStream decode s.stream := by
  obtain ⟨_, ms, hanswers, hparse⟩ := h
  have hnow := hparse []
  simp only [List.append_nil] at hnow
  rw [hanswers, uptoFault_messages, hnow]
  exact List.prefix_append _ _

theorem Dead.complete (h : s.Dead e) : uptoFault s.answers = parseStream decode s.stream := by
  obtain ⟨_, ms, k, hanswers, hparse⟩ := h
  have hnow := hparse []
  rw [List.append_nil] at hnow
  rw [hanswers, uptoFault_faulted, hnow]

theorem stream_run_asks {calls : List Call} (h : ∀ c ∈ calls, c.asks = true) :
    (run step s calls).stream = s.stream := by
  induction calls generalizing s with
  | nil => rfl
  | cons c calls ih =>
    rw [run_cons, ih fun c' hc' => h c' (List.mem_cons_of_mem c hc'),
      stream_asks (h c (List.mem_cons_self ..))]

theorem Dead.run_dead (h : s.Dead e) (calls : List Call) : (Base.run Session.step s calls).Dead e :=
  run_invariant (Dead e) (fun _ c h => Dead.step h c) h calls

theorem Live.drain (h : s.Live) {calls : List Call} (hasks : ∀ c ∈ calls, c.asks = true)
    (hlong : (parseStream decode s.decoder.pending).length ≤ calls.length) :
    uptoFault (Base.run Session.step s calls).answers = parseStream decode s.stream := by
  induction calls generalizing s with
  | nil =>
    obtain ⟨_, ms, hanswers, hparse⟩ := h
    have hnow := hparse []
    simp only [List.append_nil, List.eq_nil_of_length_eq_zero (Nat.le_zero.mp hlong)] at hnow
    rw [run_nil, hanswers, uptoFault_messages, hnow]
  | cons c calls ih =>
    have htail : ∀ c' ∈ calls, c'.asks = true := fun c' hc' => hasks c' (List.mem_cons_of_mem c hc')
    rw [run_cons]
    rcases h.asks (hasks c (List.mem_cons_self ..)) with ⟨hlive, hstream, hless⟩ |
      ⟨e, hdead, hstream⟩
    · grind
    · rw [(hdead.run_dead calls).complete, stream_run_asks htail, hstream]

end Session

/-- Chunking independence and fail-stop. For every list of calls, over any
chunks: the answers up to the first fault are an initial part of what
parsing everything appended at once answers, and all of it once a call
has asked for each of its messages; a decoder that has answered a fault
holds nothing, and from then on no call changes it and every asking call
is answered that fault; and an eliding call's span selects, in the buffer
it leaves, exactly the run of the message the plain call answers. -/
theorem frameDecoder_parses_stream (calls : List Call) :
    let s := run Session.step Session.start calls
    uptoFault s.answers <+: parseStream decode s.stream ∧
    (∀ asks : List Call, (∀ c ∈ asks, c.asks = true) →
      (parseStream decode s.stream).length ≤ asks.length →
      uptoFault (run Session.step s asks).answers = parseStream decode s.stream) ∧
    (∀ e, .fault e ∈ s.answers → s.decoder.bufferedByteCount = 0 ∧
      ∀ later : List Call, (run Session.step s later).decoder = s.decoder ∧
        (run Session.step s later).answers
          = s.answers ++ List.replicate (later.countP Call.asks) (.fault e)) ∧
    (∀ value span d', s.decoder.nextMessageLeavingOpaqueRun = (.ok (some (value, span)), d') →
      ∃ message, s.decoder.nextMessage.1 = .ok (some message) ∧
        span.get? d'.reader.buffer = some message.opaqueRun ∧
        d'.runBytes span = message.opaqueRun ∧ value.withRun (d'.runBytes span) = message) := by
  intro s
  have hinv : s.Inv := Session.inv_run calls
  refine ⟨?_, ?_, ?_, ?_⟩
  · rcases hinv with hlive | ⟨e, hdead⟩
    · exact hlive.answers_isPrefix
    · exact hdead.complete ▸ List.prefix_refl _
  · intro asks hasks hlong
    rcases hinv with hlive | ⟨e, hdead⟩
    · refine hlive.drain hasks (Nat.le_trans ?_ hlong)
      obtain ⟨_, ms, _, hparse⟩ := hlive
      have hnow := hparse []
      simp only [List.append_nil] at hnow
      rw [hnow, List.length_append]
      omega
    · rw [(hdead.run_dead asks).complete, Session.stream_run_asks hasks]
  · intro e he
    rcases hinv with ⟨_, ms, hanswers, _⟩ | ⟨e', hdecoder, ms, k, hanswers, _⟩
    · rw [hanswers] at he
      simp at he
    · rw [hanswers] at he
      obtain rfl : e = e' := by simpa [List.mem_replicate] using he
      refine ⟨?_, Session.Dead.run hdecoder⟩
      rw [hdecoder]
      rfl
  · intro value span d' hnext
    have hlive : s.decoder.reader.fault = none := by
      rcases hinv with ⟨hfault, _⟩ | ⟨e', hdecoder, _⟩
      · exact hfault
      · rw [hdecoder] at hnext
        cases hnext
    exact FrameDecoder.nextMessageLeavingOpaqueRun_agrees hlive hnext

/-! ## §4 Encoded messages -/

theorem parseStream_encode (m : WireMessage) (hfits : (encode m).length ≤ prefixLength + maxFramePayloadLength) :
    parseStream decode (encode m ++ more) = .ok m.clamped :: parseStream decode more := by
  rw [encode_eq, length_frameBytes] at hfits
  simp only [prefixLength, maxFramePayloadLength] at hfits
  obtain ⟨r, hr, hrun⟩ := readsRestTo_decodeInner m (by omega) []
  rw [List.nil_append, List.length_nil] at hrun
  have hdeclared : declaredLength (encode m ++ more) = 1 + (bodyBytes m m.opaqueRun).length := by
    rw [encode_eq, declaredLength, frameBytes, framed, List.append_assoc, prefixLength,
      List.take_left' (length_toBe 4 _), ofBe_toBe (UInt32.toNat_lt _), wireLength, Nat.and_two_pow_sub_one_eq_mod _ 32]
    simp only [List.length_append, List.length_singleton, UInt32.toNat_ofNat']
    omega
  have hcut : cutFrame (encode m ++ more) = .frame ([m.messageType] ++ bodyBytes m m.opaqueRun) more := by
    have hdrop : (encode m ++ more).drop prefixLength = ([m.messageType] ++ bodyBytes m m.opaqueRun) ++ more := by
      rw [encode_eq, frameBytes, framed, List.append_assoc]
      exact List.drop_left' (length_toBe 4 _)
    rw [cutFrame_eq_frame, hdeclared, ← List.drop_drop, hdrop, encode_eq]
    refine ⟨?_, by simp only [maxFramePayloadLength]; omega, List.take_left' ?_, List.drop_left' ?_⟩
    · simp only [List.length_append, length_frameBytes, prefixLength]
      omega
    all_goals simp [Nat.add_comm]
  exact parseStream_ok hcut (by rw [decode, hrun, ← hr]; rfl)

theorem parseStream_messages (messages : List WireMessage)
    (hfits : ∀ m ∈ messages, (encode m).length ≤ prefixLength + maxFramePayloadLength) :
    parseStream decode (messages.flatMap encode) = messages.map fun m => .ok m.clamped := by
  induction messages with
  | nil => exact parseStream_incomplete rfl
  | cons m messages ih =>
    rw [List.flatMap_cons, parseStream_encode _ m (hfits m (List.mem_cons_self ..)),
      ih fun m' hm' => hfits m' (List.mem_cons_of_mem m hm'), List.map_cons]

theorem Session.live_of_messages (calls : List Call) (messages : List WireMessage)
    (h : parseStream decode ((run Session.step Session.start calls).stream ++ more) = messages.map .ok) :
    (run Session.step Session.start calls).Live := by
  rcases inv_run calls with hlive | ⟨e, -, ms, k, -, hparse⟩
  · exact hlive
  · have hmem : (.fault e : Outcome WireError WireMessage) ∈ messages.map Outcome.ok := by
      rw [← h, hparse]
      simp
    simp at hmem

/-- However the frames of some messages are cut, and whenever the decoder is asked,
it has answered an initial part of these messages, and all of them once all the
bytes are there and it has been asked as often. -/
theorem messages_arrive (messages : List WireMessage)
    (hfits : ∀ m ∈ messages, (encode m).length ≤ prefixLength + maxFramePayloadLength) (calls : List Call)
    (hstream : (run Session.step Session.start calls).stream ++ more = messages.flatMap encode) :
    let s := run Session.step Session.start calls
    s.answers <+: messages.map (fun m => .ok m.clamped) ∧
    ∀ asks : List Call, more = [] → (∀ c ∈ asks, c.asks = true) → messages.length ≤ asks.length →
      (run Session.step s asks).answers = messages.map fun m => .ok m.clamped := by
  intro s
  have hparse : parseStream decode (s.stream ++ more) = (messages.map WireMessage.clamped).map .ok := by
    rw [hstream, parseStream_messages _ hfits, List.map_map]
    rfl
  have hall : messages.map (fun m => (.ok m.clamped : Outcome WireError WireMessage)) =
      (messages.map WireMessage.clamped).map .ok := by rw [List.map_map]; rfl
  have hlive : s.Live := Session.live_of_messages more calls _ hparse
  have ⟨_, ms, hanswers, hms⟩ := hlive
  rw [hall]
  refine ⟨⟨_, by rw [hanswers, ← hms more, hparse]⟩, fun asks hmore hasks hlong => ?_⟩
  subst hmore
  have hstay : (run Session.step Session.start (calls ++ asks)).stream = s.stream := by
    rw [run_append, Session.stream_run_asks hasks]
  have hlive' := Session.live_of_messages [] (calls ++ asks) _ (hstay ▸ hparse)
  rw [run_append] at hlive'
  obtain ⟨-, ms', hanswers', -⟩ := hlive'
  rw [List.append_nil] at hparse
  have hshort : (parseStream decode s.decoder.pending).length ≤ asks.length := by
    have hlength := congrArg List.length (hms [])
    rw [List.append_nil, List.append_nil, hparse] at hlength
    simp only [List.length_map, List.length_append] at hlength
    omega
  have hdrain := hlive.drain hasks hshort
  rwa [hanswers', uptoFault_messages, ← hanswers', hparse] at hdrain

theorem messages_arrive_cut : let frame := encode (.output 5 [104, 105])
    let s := run Session.step Session.start [.append (frame.take 3), .next, .append (frame.drop 3)]
    (run Session.step s [.next]).answers = [.ok (.output 5 [104, 105])] :=
  (messages_arrive [] [.output 5 [104, 105]] (by decide) _ (by decide)).2 [.next] rfl (by decide) (by decide)

end SlopDesk.Wire
