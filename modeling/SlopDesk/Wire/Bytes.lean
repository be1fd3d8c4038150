/-
SlopDesk.Wire.Bytes — the big-endian byte helpers of the terminal wire
(`slopdesk-wire/src/bytes.rs`, `error.rs`).

* `ByteWriter` writes into a buffer it grows itself or into one it was
  lent. A lent buffer is never grown: the writer keeps counting what it
  was asked for, and skips a write that does not fit.
* `Decoder` is the `ByteReader` of the source as a `Base.Parser`: the
  slice is immutable, the offset is what a read moves. Reading past the
  end is `WireError.truncated`; the one subtraction that could
  underflow, `bytesRemaining`, answers a panic when it would.

Byte counts are `Nat`. The source adds lengths with `saturating_add`,
and a sum of lengths of live allocations does not reach `usize::MAX`.
-/
import SlopDesk.Base.BigEndian
import SlopDesk.Base.Parser

namespace SlopDesk.Wire

open SlopDesk.Base

/-- `WireError`: a permanent fault raised while decoding a frame. A
partial frame is not one. -/
inductive WireError where
  | frameTooLarge (length : Nat)
  | truncated
  | unknownMessageType (byte : UInt8)
  | malformedBody (hint : String)
  deriving DecidableEq, Repr

/-- `core::ops::Range<usize>`: where a run of bytes sits. -/
structure ByteRange where
  start : Nat
  stop : Nat
  deriving DecidableEq, Repr

/-- `slice.get(range)`: the bytes a range selects, if it lies inside. -/
def ByteRange.get? (r : ByteRange) (data : List UInt8) : Option (List UInt8) :=
  if r.start ≤ r.stop ∧ r.stop ≤ data.length then some ((data.drop r.start).take (r.stop - r.start))
  else none

/-! ## Strings -/

/-- The UTF-8 bytes of a string. -/
def utf8Bytes (value : String) : List UInt8 := value.toByteArray.data.toList

/-- `MAX_LENGTH_PREFIXED_BYTES`. -/
def maxLengthPrefixedBytes : Nat := 65535

/-- The scan of `clamp_utf8`: characters are kept while the byte index
after them does not pass `maxBytes`. -/
def clampChars (maxBytes : Nat) : (index : Nat) → List Char → List Char
  | _, [] => []
  | index, ch :: rest =>
    let next := index + ch.utf8Size
    if next > maxBytes then [] else ch :: clampChars maxBytes next rest

def clampUtf8 (value : String) (maxBytes : Nat) : String :=
  if value.utf8ByteSize ≤ maxBytes then value
  else String.ofList (clampChars maxBytes 0 value.toList)

def clampU16Field (value : String) : String := clampUtf8 value maxLengthPrefixedBytes

/-! ## Writing -/

/-- Where a `ByteWriter` puts what it is handed: a buffer of its own, or
a lent one with the count of bytes asked for so far. -/
inductive Sink where
  | owned (buf : List UInt8)
  | borrowed (buf : List UInt8) (len : Nat)
  deriving DecidableEq, Repr

structure ByteWriter where
  sink : Sink
  deriving DecidableEq, Repr

/-- `buf[start..start + bytes.len()].copy_from_slice(bytes)`. -/
def overwrite (buf : List UInt8) (start : Nat) (bytes : List UInt8) : List UInt8 :=
  buf.take start ++ (bytes ++ buf.drop (start + bytes.length))

namespace ByteWriter

def new : ByteWriter := ⟨.owned []⟩

def borrowing (buf : List UInt8) : ByteWriter := ⟨.borrowed buf 0⟩

/-- `put_slice`, the one place either sink is written. -/
def putSlice (w : ByteWriter) (bytes : List UInt8) : ByteWriter :=
  match w.sink with
  | .owned buf => ⟨.owned (buf ++ bytes)⟩
  | .borrowed buf len =>
    let stop := len + bytes.length
    ⟨.borrowed (if stop ≤ buf.length then overwrite buf len bytes else buf) stop⟩

/-- `len`: the bytes written, or over a lent buffer the bytes asked for. -/
def len (w : ByteWriter) : Nat :=
  match w.sink with
  | .owned buf => buf.length
  | .borrowed _ len => len

/-- `patch_u32`: out of range is a no-op. -/
def patchU32 (w : ByteWriter) (offset : Nat) (value : UInt32) : ByteWriter :=
  let patch := fun buf : List UInt8 =>
    if offset + 4 ≤ buf.length then overwrite buf offset (toBe 4 value.toNat) else buf
  match w.sink with
  | .owned buf => ⟨.owned (patch buf)⟩
  | .borrowed buf len => ⟨.borrowed (patch buf) len⟩

def intoVec (w : ByteWriter) : List UInt8 :=
  match w.sink with
  | .owned buf => buf
  | .borrowed buf len => if len ≤ buf.length then buf.take len else buf

/-- The memory the writer writes into, all of it. -/
def memory (w : ByteWriter) : List UInt8 :=
  match w.sink with
  | .owned buf => buf
  | .borrowed buf _ => buf

end ByteWriter

/-- A sequence of writes. -/
abbrev Put := StateM ByteWriter Unit

def putBytes (bytes : List UInt8) : Put := modify fun w => w.putSlice bytes
def putU8 (value : UInt8) : Put := putBytes [value]
def putBool (value : Bool) : Put := putBytes [if value then 1 else 0]
def putU16 (value : UInt16) : Put := putBytes (toBe 2 value.toNat)
def putU32 (value : UInt32) : Put := putBytes (toBe 4 value.toNat)
def putU64 (value : UInt64) : Put := putBytes (toBe 8 value.toNat)
def putI32 (value : Int32) : Put := putU32 value.toUInt32
def putI64 (value : Int64) : Put := putU64 value.toUInt64

/-- `put_length_prefixed_str`: a `u16` length and the clamped UTF-8. -/
def putLengthPrefixedStr (value : String) : Put := do
  let bytes := utf8Bytes (clampU16Field value)
  putU16 (if bytes.length ≤ 65535 then UInt16.ofNat bytes.length else 65535)
  putBytes bytes

/-! ## Reading -/

/-- A reader of wire bytes. -/
abbrev Decoder (α : Type) := Parser WireError UInt8 α

def nextByte : Decoder UInt8 :=
  ⟨fun data off =>
    match data[off]? with
    | some byte => .ok (byte, off + 1)
    | none => .fault .truncated⟩

/-- The loop shared by the multi-byte reads: `count` bytes shifted in
behind `value`. -/
def readBe : (count value : Nat) → Decoder Nat
  | 0, value => pure value
  | count + 1, value => do
    let byte ← nextByte
    readBe count (shiftIn value byte)

def readU8 : Decoder UInt8 := nextByte

/-- `read_bool`: any non-zero byte is true. -/
def readBool : Decoder Bool := do
  let byte ← nextByte
  pure (byte != 0)

def readU16 : Decoder UInt16 := do
  let value ← readBe 2 0
  pure (UInt16.ofNat value)

def readU32 : Decoder UInt32 := do
  let value ← readBe 4 0
  pure (UInt32.ofNat value)

def readU64 : Decoder UInt64 := do
  let value ← readBe 8 0
  pure (UInt64.ofNat value)

def readI32 : Decoder Int32 := do
  let value ← readU32
  pure value.toInt32

def readI64 : Decoder Int64 := do
  let value ← readU64
  pure value.toInt64

def readBytes (count : Nat) : Decoder (List UInt8) :=
  ⟨fun data off =>
    if off + count ≤ data.length then .ok ((data.drop off).take count, off + count)
    else .fault .truncated⟩

/-- `remaining`: consumes everything left. -/
def remaining : Decoder (List UInt8) := ⟨fun data off => .ok (data.drop off, data.length)⟩

def position : Decoder Nat := ⟨fun _ off => .ok (off, off)⟩

/-- `bytes_remaining`: `data.len() - offset`, an underflow when the offset
is past the end. -/
def bytesRemaining : Decoder Nat :=
  ⟨fun data off => if off ≤ data.length then .ok (data.length - off, off) else .panicked⟩

/-- `utf8`: strict UTF-8, or a fault naming `field`. -/
def utf8 (bytes : List UInt8) (field : String) : Decoder String :=
  match String.fromUTF8? ⟨bytes.toArray⟩ with
  | some value => pure value
  | none => .throw (.malformedBody (field ++ ": invalid UTF-8"))

def readLengthPrefixedStr (field : String) : Decoder String := do
  let len ← readU16
  let bytes ← readBytes len.toNat
  utf8 bytes field

def remainingStr (field : String) : Decoder String := do
  let bytes ← remaining
  utf8 bytes field

end SlopDesk.Wire
