/-
SlopDesk.Sanitize.VtScan — the scanners the passes share.
-/
import SlopDesk.Wire.Bytes

/-! # The escape-sequence skimmer
(`slopdesk-sanitize/src/vtscan.rs`).

It answers where a sequence ends and interprets nothing. Both scanners
are given the whole buffer and an index into it, as in the source, and
look only at what follows the index.
-/

namespace SlopDesk.Sanitize

variable {bytes : List UInt8}

/-- `ESC`. -/
def esc : UInt8 := 0x1B
/-- `BEL`. -/
def bel : UInt8 := 0x07
/-- `C1_ST`, the 8-bit string terminator. -/
def c1St : UInt8 := 0x9C
/-- `CAN`. -/
def can : UInt8 := 0x18
/-- `SUB`. -/
def sub : UInt8 := 0x1A
/-- `LF`. -/
def lf : UInt8 := 0x0A

/-- `0x30..=0x3F`. -/
def isParam (b : UInt8) : Bool := 0x30 ≤ b && b ≤ 0x3F
/-- `0x20..=0x2F`. -/
def isIntermediate (b : UInt8) : Bool := 0x20 ≤ b && b ≤ 0x2F
/-- `0x40..=0x7E`. -/
def isFinal (b : UInt8) : Bool := 0x40 ≤ b && b ≤ 0x7E

structure Csi where
  params : List UInt8
  intermediates : List UInt8
  finalByte : UInt8
  stop : Nat
  deriving DecidableEq, Repr

/-- `parse_csi`: `none` when no final byte follows where one belongs. -/
def parseCsi (bytes : List UInt8) (start : Nat) : Option Csi :=
  let paramsStart := start + 2
  let params := (bytes.drop paramsStart).takeWhile isParam
  let intersStart := paramsStart + params.length
  let intermediates := (bytes.drop intersStart).takeWhile isIntermediate
  let stop := intersStart + intermediates.length
  match bytes[stop]? with
  | some finalByte => if isFinal finalByte then some ⟨params, intermediates, finalByte, stop + 1⟩ else none
  | none => none

structure StringSequence where
  bodyEnd : Nat
  seqEnd : Nat
  deriving DecidableEq, Repr

structure Terminators where
  bel : Bool
  c1St : Bool
  bareEsc : Bool
  deriving DecidableEq, Repr

def Terminators.osc : Terminators := ⟨true, false, false⟩
def Terminators.stOnly : Terminators := ⟨false, false, false⟩
def Terminators.lenient : Terminators := ⟨true, true, true⟩
def Terminators.replay (belTerminates : Bool) : Terminators :=
  if belTerminates then .osc else .stOnly

/-- The scan of `string_sequence_end`, `j` being where the bytes start. -/
def stringEndFrom (t : Terminators) : (j : Nat) → List UInt8 → Option StringSequence
  | _, [] => none
  | j, byte :: rest =>
    -- an aborting byte is left for the outer scanner
    if byte = can ∨ byte = sub then some ⟨j, j⟩
    else if (t.bel ∧ byte = bel) ∨ (t.c1St ∧ byte = c1St) then some ⟨j, j + 1⟩
    else if byte = esc then
      if rest.head? = some 0x5C then some ⟨j, j + 2⟩
      else if t.bareEsc then some ⟨j, j + 1⟩
      else stringEndFrom t (j + 1) rest
    else stringEndFrom t (j + 1) rest

def stringSequenceEnd (bytes : List UInt8) (bodyStart : Nat) (t : Terminators) :
    Option StringSequence :=
  stringEndFrom t bodyStart (bytes.drop bodyStart)

/-- `string_introducer`: whether the byte begins a string sequence, and
whether `BEL` ends it. -/
def stringIntroducer (byte : UInt8) : Option Bool :=
  if byte = 0x5D then some true
  else if byte = 0x50 ∨ byte = 0x58 ∨ byte = 0x5E ∨ byte = 0x5F then some false
  else none

def isAsciiDigit (b : UInt8) : Bool := 0x30 ≤ b && b ≤ 0x39

/-- The value of a run of digits. -/
def digitsValue (digits : List UInt8) : Nat :=
  digits.foldl (fun value digit => 10 * value + (digit.toNat - 0x30)) 0

/-- `str::parse::<i64>`, of a field without a sign. -/
def parseField (field : List UInt8) : Option Nat :=
  if field ≠ [] ∧ field.all isAsciiDigit ∧ digitsValue field < 2 ^ 63 then some (digitsValue field) else none

/-- `param_fields`, of a `CSI` that drops its marker when there is one. -/
def paramFields (csi : Csi) : List Nat :=
  let params := if csi.params.head? = some 0x3F then csi.params.drop 1 else csi.params
  (params.splitOn 0x3B).filterMap parseField

/-! ## A scan goes forward -/

theorem parseCsi_stop_pos {start : Nat} {csi : Csi} (h : parseCsi bytes start = some csi) :
    0 < csi.stop := by
  simp only [parseCsi] at h
  split at h
  · split at h
    · cases h
      simp
    · cases h
  · cases h

theorem le_stringEndFrom {t : Terminators} {seq : StringSequence} :
    ∀ {j : Nat}, stringEndFrom t j bytes = some seq → j ≤ seq.seqEnd := by
  induction bytes with
  | nil => simp [stringEndFrom]
  | cons byte rest ih =>
    intro j h
    rw [stringEndFrom] at h
    have hnext : stringEndFrom t (j + 1) rest = some seq → j ≤ seq.seqEnd := fun h => by
      have := ih h
      omega
    split_ifs at h
    all_goals first
      | exact hnext h
      | (cases h; simp)

theorem le_stringSequenceEnd {bodyStart : Nat} {t : Terminators} {seq : StringSequence}
    (h : stringSequenceEnd bytes bodyStart t = some seq) : bodyStart ≤ seq.seqEnd :=
  le_stringEndFrom h

end SlopDesk.Sanitize

/-! # The two escapings a terminal writes a path or a
command line in, inverted (`slopdesk-sanitize/src/escape.rs`).
-/

namespace SlopDesk.Sanitize

open SlopDesk.Wire

def hexNibble (byte : UInt8) : Option UInt8 :=
  if 0x30 ≤ byte ∧ byte ≤ 0x39 then some (byte - 0x30)
  else if 0x41 ≤ byte ∧ byte ≤ 0x46 then some (byte - 0x37)
  else if 0x61 ≤ byte ∧ byte ≤ 0x66 then some (byte - 0x57)
  else none

def hexByte (high low : UInt8) : Option UInt8 := do
  let high ← hexNibble high
  let low ← hexNibble low
  return (high <<< 4) ||| low

/-- `unescape_command`: `\xNN` is one byte, and a backslash that begins no
escape stays. -/
def unescapeCommand : List UInt8 → List UInt8
  | 0x5C :: 0x78 :: high :: low :: rest =>
    match hexByte high low with
    | some value => value :: unescapeCommand rest
    | none => 0x5C :: unescapeCommand (0x78 :: high :: low :: rest)
  | byte :: rest => byte :: unescapeCommand rest
  | [] => []

/-- The scan of `percent_decoded`. -/
def percentBytes : List UInt8 → Option (List UInt8)
  | [] => some []
  | byte :: rest =>
    if byte = 0x25 then
      match rest with
      | high :: low :: rest => do
        let value ← hexByte high low
        let decoded ← percentBytes rest
        return value :: decoded
      | _ => none
    else (percentBytes rest).map (byte :: ·)

def fromUtf8 (bytes : List UInt8) : Option String := String.fromUTF8? ⟨bytes.toArray⟩

/-- `percent_decoded`: all or nothing. -/
def percentDecoded (text : String) : Option String :=
  if '%' ∈ text.toList then (percentBytes (utf8Bytes text)).bind fromUtf8 else some text

end SlopDesk.Sanitize
