/-
SlopDesk.Base.Binary64 — binary floating-point numbers.
-/
import Mathlib.Data.Int.Basic
import Mathlib.Data.Nat.Log
import Mathlib.Order.Lattice

/-! # IEEE 754 binary64 arithmetic, on bit patterns.

Every finite binary64 value is a whole number of units of `2 ^ -1074`, so
a sum, a product or a quotient is taken exactly, as a ratio of natural
numbers of such units, and rounded once, to the nearest pattern and to the
even one of two that are as near. Numbers that are not NaN are ordered as
their patterns are, read as a sign and a magnitude.
-/

namespace SlopDesk.Base

/-- `f64`. -/
structure F64 where
  bits : UInt64
  deriving DecidableEq

namespace F64

/-! ## The fields of a pattern -/

def negative (x : F64) : Bool := decide (9223372036854775808 ≤ x.bits.toNat)

/-- The pattern without its sign. -/
def magnitudeBits (x : F64) : Nat := x.bits.toNat % 9223372036854775808

def exponent (x : F64) : Nat := x.magnitudeBits / 4503599627370496

def fraction (x : F64) : Nat := x.magnitudeBits % 4503599627370496

def isNan (x : F64) : Bool := x.exponent = 2047 && x.fraction ≠ 0

def isInfinite (x : F64) : Bool := x.exponent = 2047 && x.fraction = 0

def isFinite (x : F64) : Bool := x.exponent ≠ 2047

/-- How many units of `2 ^ -1074` a finite number is from zero. -/
def units (x : F64) : Nat :=
  if x.exponent = 0 then x.fraction else (4503599627370496 + x.fraction) <<< (x.exponent - 1)

/-- The same, signed. -/
def signedUnits (x : F64) : Int := if x.negative then -(x.units : Int) else x.units

/-! ## Patterns built -/

def ofParts (negative : Bool) (magnitude : Nat) : F64 :=
  ⟨UInt64.ofNat ((if negative then 9223372036854775808 else 0) + magnitude)⟩

def zero : F64 := ⟨0⟩
def one : F64 := ⟨0x3FF0000000000000⟩
def two : F64 := ⟨0x4000000000000000⟩
def nan : F64 := ⟨0x7FF8000000000000⟩
def infinity : F64 := ⟨0x7FF0000000000000⟩

/-- The units of `1.0`. -/
def unitsOfOne : Nat := 1 <<< 1074

/-- `num / den` units, rounded to the nearest magnitude, ties to even. A
magnitude past the largest finite one is infinite. -/
def roundUnits (num den : Nat) : Nat :=
  let shift := (num / den).log2 - 52
  let unit := den <<< shift
  let quotient := num / unit
  let rest := num % unit
  let rounded :=
    if unit < 2 * rest ∨ (2 * rest = unit ∧ quotient % 2 = 1) then quotient + 1 else quotient
  min (shift * 4503599627370496 + rounded) infinity.magnitudeBits

/-- `f64::from`, of a count. -/
def ofNat (n : Nat) : F64 := ofParts false (roundUnits (n * unitsOfOne) 1)

/-! ## Arithmetic -/

def neg (x : F64) : F64 := ofParts (!x.negative) x.magnitudeBits

def abs (x : F64) : F64 := ofParts false x.magnitudeBits

def add (x y : F64) : F64 :=
  if x.isNan || y.isNan then nan
  else if x.isInfinite then if y.isInfinite && x.negative != y.negative then nan else x
  else if y.isInfinite then y
  else
    let sum := x.signedUnits + y.signedUnits
    if sum = 0 then ofParts (x.negative && y.negative) 0
    else ofParts (decide (sum < 0)) (roundUnits sum.natAbs 1)

def sub (x y : F64) : F64 := add x (neg y)

def mul (x y : F64) : F64 :=
  let negative := x.negative != y.negative
  if x.isNan || y.isNan then nan
  else if x.isInfinite || y.isInfinite then
    if x.magnitudeBits = 0 || y.magnitudeBits = 0 then nan else ofParts negative infinity.magnitudeBits
  else ofParts negative (roundUnits (x.units * y.units) unitsOfOne)

def div (x y : F64) : F64 :=
  let negative := x.negative != y.negative
  if x.isNan || y.isNan then nan
  else if x.isInfinite then if y.isInfinite then nan else ofParts negative infinity.magnitudeBits
  else if y.isInfinite then ofParts negative 0
  else if y.units = 0 then
    if x.units = 0 then nan else ofParts negative infinity.magnitudeBits
  else ofParts negative (roundUnits (x.units * unitsOfOne) y.units)

/-! ## Order -/

/-- Where a number that is not NaN stands among the others. Both zeros
stand at zero. -/
def rank (x : F64) : Int := if x.negative then -(x.magnitudeBits : Int) else x.magnitudeBits

/-- `<`: false when either is NaN. -/
def lt (x y : F64) : Bool := !x.isNan && !y.isNan && decide (x.rank < y.rank)

/-- `<=`. -/
def le (x y : F64) : Bool := !x.isNan && !y.isNan && decide (x.rank ≤ y.rank)

/-- `==`: NaN is not equal to itself, and the two zeros are equal. -/
def eq (x y : F64) : Bool := !x.isNan && !y.isNan && decide (x.rank = y.rank)

/-- `max`: the other number when one is NaN. -/
def max (x y : F64) : F64 :=
  if x.isNan then y else if y.isNan then x else if x.lt y then y else x

/-- `min`: the other number when one is NaN. -/
def min (x y : F64) : F64 :=
  if x.isNan then y else if y.isNan then x else if y.lt x then y else x

end F64

end SlopDesk.Base
