/-
SlopDesk.Sanitize.PlainText — the text that is left of a stream without its
sequences (`slopdesk-sanitize/src/plaintext.rs`).

`plain` renders a whole buffer; `holdbackStart` says from where a buffer's
tail must wait for the next chunk. Each loop is written over the bytes from
its cursor on. Where the cursor stands in the buffer matters to
`completeCsiEnd` alone.
-/
import SlopDesk.Sanitize.VtScan

namespace SlopDesk.Sanitize

variable {bytes : List UInt8}

/-- `C1_CSI`. -/
def c1Csi : UInt8 := 0x9B
/-- `C1_OSC`. -/
def c1Osc : UInt8 := 0x9D

/-- `PRIVATE_USE`. -/
def privateUseRanges : List (Nat × Nat) := [(0xE000, 0xF8FF), (0xF0000, 0xFFFFD), (0x100000, 0x10FFFD)]

def privateUse (character : Char) : Bool :=
  privateUseRanges.any fun (low, high) => low ≤ character.toNat && character.toNat ≤ high

def utf8Width (byte : UInt8) : Option Nat :=
  if 0xC2 ≤ byte ∧ byte ≤ 0xDF then some 2
  else if 0xE0 ≤ byte ∧ byte ≤ 0xEF then some 3
  else if 0xF0 ≤ byte ∧ byte ≤ 0xF7 then some 4
  else none

def isPlain (byte : UInt8) : Bool :=
  byte ≠ esc && byte ≠ c1Csi && byte ≠ c1Osc && (utf8Width byte).isNone

/-- What `copy_codepoint` appends. -/
def copyCodepoint (codepoint : List UInt8) : List UInt8 :=
  if (fromUtf8 codepoint).any fun text => text.toList.any privateUse then [] else codepoint

inductive Introduced where
  | csi (body : Nat)
  | string (body : Nat)
  | charset (designator : Nat)
  | escaped (stop : Nat)

/-- Where what follows the introducer begins. -/
def Introduced.body : Introduced → Nat
  | .csi body => body
  | .string body => body
  | .charset designator => designator
  | .escaped stop => stop

/-- `introducer`, of the first of the bytes. -/
def introducer (bytes : List UInt8) : Option Introduced :=
  match bytes with
  | [] => none
  | byte :: rest =>
    if byte = c1Csi then some (.csi 1)
    else if byte = c1Osc then some (.string 1)
    else if byte = esc then
      match rest with
      | [] => none
      | name :: _ =>
        if name = 0x5B then some (.csi 2)
        else if name = 0x28 ∨ name = 0x29 ∨ name = 0x2A ∨ name = 0x2B then some (.charset 2)
        else if (stringIntroducer name).isSome then some (.string 2)
        else some (.escaped 2)
    else none

/-- Where the final byte of a `CSI` belongs. -/
def csiIndex (bytes : List UInt8) (body : Nat) : Nat :=
  let index := body + ((bytes.drop body).takeWhile isParam).length
  index + ((bytes.drop index).takeWhile isIntermediate).length

/-- `csi_end`: another byte than a final one ends it before. -/
def csiEnd (bytes : List UInt8) (body : Nat) : Nat :=
  csiIndex bytes body + if bytes[csiIndex bytes body]?.any isFinal then 1 else 0

def sequenceEnd (bytes : List UInt8) : Option Nat :=
  match introducer bytes with
  | none => if bytes.head? = some esc then some bytes.length else none
  | some (.csi body) => some (csiEnd bytes body)
  | some (.string body) => some (((stringSequenceEnd bytes body .lenient).map (·.seqEnd)).getD bytes.length)
  | some (.charset designator) => some (min bytes.length (designator + 1))
  | some (.escaped stop) => some stop

def cutEscape (bytes : List UInt8) (sequence : StringSequence) : Bool :=
  bytes[sequence.bodyEnd]? = some esc && sequence.seqEnd = bytes.length

/-- `complete_csi_end`, in the buffer that holds `front` before the bytes. -/
def completeCsiEnd (front bytes : List UInt8) (body : Nat) : Option Nat :=
  let stop := csiEnd bytes body
  if stop < bytes.length then some stop
  -- a `C1_CSI` that begins the buffer has no two bytes before its body
  else if front.length + body < 2 then none
  else (parseCsi (front ++ bytes) (front.length + body - 2)).map (·.stop - front.length)

def completeSequenceEnd (front bytes : List UInt8) : Except Unit (Option Nat) :=
  match introducer bytes with
  | none => if bytes.head? = some esc then .error () else .ok none
  | some (.csi body) => (completeCsiEnd front bytes body).elim (.error ()) fun stop => .ok (some stop)
  | some (.string body) =>
    ((stringSequenceEnd bytes body .lenient).filter fun sequence =>
      sequence.seqEnd ≤ bytes.length && !cutEscape bytes sequence).elim (.error ()) fun sequence =>
        .ok (some sequence.seqEnd)
  | some (.charset designator) => if designator < bytes.length then .ok (some (designator + 1)) else .error ()
  | some (.escaped stop) => .ok (some stop)

/-! ## The two loops -/

theorem two_le_utf8Width {byte : UInt8} {width : Nat} (h : utf8Width byte = some width) : 2 ≤ width := by
  simp only [utf8Width] at h
  split_ifs at h <;> cases h <;> decide

theorem body_fits {introduced : Introduced} (h : introducer bytes = some introduced) :
    1 ≤ introduced.body ∧ introduced.body ≤ bytes.length := by
  unfold introducer at h
  cases bytes with
  | nil => cases h
  | cons byte rest =>
    cases rest <;> simp only at h <;> split_ifs at h <;> cases h <;> simp [Introduced.body]

theorem le_csiEnd (bytes : List UInt8) (body : Nat) : body ≤ csiEnd bytes body := by
  simp only [csiEnd, csiIndex]
  omega

theorem sequenceEnd_pos {stop : Nat} (h : sequenceEnd bytes = some stop) (hne : bytes ≠ []) : 0 < stop := by
  have hlen := List.length_pos_iff.mpr hne
  cases hintroducer : introducer bytes with
  | none =>
    simp only [sequenceEnd, hintroducer] at h
    split at h <;> cases h
    exact hlen
  | some introduced =>
    have hbody := (body_fits hintroducer).1
    cases introduced with
    | csi body =>
      simp only [sequenceEnd, hintroducer, Option.some.injEq] at h
      exact h ▸ hbody.trans (le_csiEnd bytes body)
    | string body =>
      simp only [sequenceEnd, hintroducer, Option.some.injEq] at h
      cases hstring : stringSequenceEnd bytes body .lenient with
      | none => simpa [← h, hstring] using hlen
      | some sequence =>
        rw [← h, hstring]
        exact hbody.trans (le_stringSequenceEnd hstring)
    | charset designator =>
      simp only [sequenceEnd, hintroducer, Option.some.injEq] at h
      omega
    | escaped stop =>
      simp only [sequenceEnd, hintroducer, Option.some.injEq] at h
      exact h ▸ hbody

theorem parseCsi_front {front : List UInt8} {body : Nat} {csi : Csi} (hfits : 2 ≤ front.length + body)
    (h : parseCsi (front ++ bytes) (front.length + body - 2) = some csi) :
    csi.stop = front.length + csiEnd bytes body ∧ bytes[csiIndex bytes body]?.any isFinal := by
  have hdrop : ∀ k, (front ++ bytes).drop (front.length + k) = bytes.drop k := fun k => by
    rw [List.drop_append, List.drop_eq_nil_of_le (by omega)]
    simp
  have hat : ∀ k, (front ++ bytes)[front.length + k]? = bytes[k]? := fun k => by
    rw [List.getElem?_append_right (by omega)]
    simp
  simp only [parseCsi, show front.length + body - 2 + 2 = front.length + body by omega, hdrop,
    Nat.add_assoc, hat] at h
  simp only [← Nat.add_assoc] at h
  split at h
  · have hindex : bytes[csiIndex bytes body]? = some _ := ‹bytes[_]? = some _›
    split at h
    · cases h
      simp [csiEnd, hindex, ‹isFinal _ = true›]
      simp only [csiIndex]
      omega
    · cases h
  · cases h

/-- A complete sequence ends where `sequence_end` says. -/
theorem sequenceEnd_of_complete {front : List UInt8} {stop : Nat}
    (h : completeSequenceEnd front bytes = .ok (some stop)) : sequenceEnd bytes = some stop := by
  unfold completeSequenceEnd at h
  unfold sequenceEnd
  cases hintroducer : introducer bytes with
  | none =>
    rw [hintroducer] at h
    simp only at h
    split at h <;> cases h
  | some introduced =>
    rw [hintroducer] at h
    cases introduced with
    | csi body =>
      cases hcomplete : completeCsiEnd front bytes body with
      | none => simp [hcomplete] at h
      | some stop' =>
        obtain rfl : stop' = stop := by simpa [hcomplete] using h
        simp only [completeCsiEnd] at hcomplete
        split_ifs at hcomplete with hlt hfits
        · exact hcomplete
        · obtain ⟨csi, hcsi, rfl⟩ := Option.map_eq_some_iff.mp hcomplete
          have := parseCsi_front (by omega) hcsi
          simp [this.1]
    | string body =>
      cases hstring : stringSequenceEnd bytes body .lenient with
      | none => simp [hstring] at h
      | some sequence =>
        simp only [hstring, Option.filter] at h
        split at h <;> simp_all
    | charset designator =>
      simp only at h
      split at h
      · cases h
        simp
        omega
      · cases h
    | escaped stop' =>
      cases h
      rfl

/-- `strip`. -/
def plain (bytes : List UInt8) : List UInt8 :=
  match bytes with
  | [] => []
  | byte :: rest =>
    match _hwidth : utf8Width byte with
    | some width => copyCodepoint ((byte :: rest).take width) ++ plain ((byte :: rest).drop width)
    | none =>
      if isPlain byte then
        let run := (byte :: rest).takeWhile isPlain
        run ++ plain ((byte :: rest).drop run.length)
      else
        match _hsequence : sequenceEnd (byte :: rest) with
        | some stop => plain ((byte :: rest).drop stop)
        | none => byte :: plain rest
termination_by bytes.length
decreasing_by
  · have := two_le_utf8Width ‹_›
    simp only [List.length_drop, List.length_cons]
    omega
  · simp only [List.length_drop, List.length_cons, List.takeWhile_cons_of_pos ‹isPlain byte = true›]
    omega
  · have := sequenceEnd_pos ‹_› (List.cons_ne_nil _ _)
    simp only [List.length_drop, List.length_cons]
    omega
  · simp

/-- The loop of `holdback_start`. -/
def holdbackFrom (front bytes : List UInt8) : Nat :=
  match bytes with
  | [] => front.length
  | byte :: rest =>
    match _hwidth : utf8Width byte with
    | some width =>
      if width > (byte :: rest).length then front.length
      else holdbackFrom (front ++ (byte :: rest).take width) ((byte :: rest).drop width)
    | none =>
      match _hsequence : completeSequenceEnd front (byte :: rest) with
      | .ok (some stop) => holdbackFrom (front ++ (byte :: rest).take stop) ((byte :: rest).drop stop)
      | .ok none => holdbackFrom (front ++ [byte]) rest
      | .error () => front.length
termination_by bytes.length
decreasing_by
  · have := two_le_utf8Width ‹_›
    simp only [List.length_drop, List.length_cons]
    omega
  · have := sequenceEnd_pos (sequenceEnd_of_complete ‹_›) (List.cons_ne_nil _ _)
    simp only [List.length_drop, List.length_cons]
    omega
  · simp

def holdbackStart (bytes : List UInt8) : Nat := holdbackFrom [] bytes

end SlopDesk.Sanitize
