/-
SlopDesk.Video.Fec — the erasure code of the video packets: its field, its matrices
and its encoder.
-/
import SlopDesk.Base.BigEndian
import SlopDesk.Base.Blocks

/-! # Arithmetic on bytes as elements of GF(2^8)
(`slopdesk-video/src/gf256.rs`, `slopdesk-gfsimd/src/lib.rs`).

Addition is XOR. Multiplication goes through two tables, the powers of
the generator `0x02` and their discrete logarithms. The region
operations work over the shorter of source and destination and leave the
rest of the destination alone; the kernel that does sixteen bytes at a
time is the byte-at-a-time one, `mul_add_scalar`.
-/

namespace SlopDesk.Video.Gf256

/-- `PRIMITIVE_POLY`. -/
def primitivePoly : UInt16 := 0x11D

/-- One round of the loop of `build_exp`: times `x`, reduced when it
overflows eight bits. -/
def timesX (value : UInt16) : UInt16 :=
  let shifted := value <<< 1
  if shifted &&& 0x100 ≠ 0 then shifted ^^^ primitivePoly else shifted

/-- `n` table entries, the first of them `value`. -/
def expCycle : Nat → UInt16 → List UInt8
  | 0, _ => []
  | n + 1, value => value.toUInt8 :: expCycle n (timesX value)

/-- `build_exp`: 255 entries, and their mirror up to 512. -/
def buildExp : List UInt8 :=
  let cycle := expCycle 255 1
  cycle ++ cycle ++ cycle.take 2

def buildLog (exp : List UInt8) : List UInt8 :=
  (List.range 255).foldl (fun table i => table.set (exp.getD i 0).toNat (.ofNat i))
    (List.replicate 256 0)

def expAt (index : Nat) : UInt8 := buildExp.getD index 0

def logOf (value : UInt8) : UInt8 := (buildLog buildExp).getD value.toNat 0

def mul (a b : UInt8) : UInt8 :=
  if a = 0 ∨ b = 0 then 0 else expAt ((logOf a).toNat + (logOf b).toNat)

/-- `inv`: the inverse of zero is answered with zero. -/
def inv (a : UInt8) : UInt8 :=
  if a = 0 then 0 else expAt (255 - (logOf a).toNat)

/-! ## Regions -/

/-- `for (d, s) in dst.iter_mut().zip(src)`. -/
def zipInto (f : UInt8 → UInt8 → UInt8) : (src dst : List UInt8) → List UInt8
  | s :: src, d :: dst => f d s :: zipInto f src dst
  | _, dst => dst

def xorAdd (src dst : List UInt8) : List UInt8 := zipInto (fun d s => d ^^^ s) src dst

/-- `MulTable`: a coefficient's products with the low and with the high
nibbles. -/
structure MulTable where
  lo : List UInt8
  hi : List UInt8

def MulTable.new (coeff : UInt8) : MulTable where
  lo := (List.range 16).map fun nibble => mul coeff (.ofNat nibble)
  hi := (List.range 16).map fun nibble => mul coeff (.ofNat (nibble <<< 4))

def mulAddScalar (tableLo tableHi : List UInt8) (src dst : List UInt8) : List UInt8 :=
  zipInto (fun d s =>
    d ^^^ (tableLo.getD (s &&& 0x0F).toNat 0 ^^^ tableHi.getD (s >>> 4).toNat 0)) src dst

def MulTable.addScaled (t : MulTable) (src dst : List UInt8) : List UInt8 :=
  mulAddScalar t.lo t.hi src dst

/-- `TABLE_CROSSOVER_BYTES`. -/
def tableCrossoverBytes : Nat := 96

def mulAdd (coeff : UInt8) (src dst : List UInt8) : List UInt8 :=
  if coeff = 0 then dst
  else if coeff = 1 then xorAdd src dst
  else if tableCrossoverBytes ≤ src.length then (MulTable.new coeff).addScaled src dst
  else zipInto (fun d s =>
    if s ≠ 0 then d ^^^ expAt ((logOf coeff).toNat + (logOf s).toNat) else d) src dst

end SlopDesk.Video.Gf256

/-! # The parity coefficients of the Reed-Solomon
code and the inverse of a square selection of encoder rows
(`slopdesk-video/src/rs_matrix.rs`).

The augmented working buffer is kept as the list of its rows, the
windows of `stride` bytes that every operation of the source takes out
of it. Coefficients and inverse stay flat and row-major, as their callers
index them.
-/

namespace SlopDesk.Video.RsMatrix

open SlopDesk.Video.Gf256

/-- `parity_rows`: the Cauchy block. `none` is the panic of its
assertion. -/
def parityRows (k m : Nat) : Option (List UInt8) :=
  if k + m ≤ 256 then
    some ((List.range m).flatMap fun i =>
      (List.range k).map fun j => inv (.ofNat (k + i) ^^^ .ofNat j))
  else none

/-- `at`. -/
def «at» (work : List (List UInt8)) (r c : Nat) : UInt8 := (work.getD r []).getD c 0

def swapRows (work : List (List UInt8)) (a b : Nat) : List (List UInt8) :=
  if a = b then work else (work.set a (work.getD b [])).set b (work.getD a [])

def scaleRow (work : List (List UInt8)) (r : Nat) (s : UInt8) : List (List UInt8) :=
  if s = 1 then work else work.set r ((work.getD r []).map fun v => mul v s)

def eliminateRow (work : List (List UInt8)) (src dst : Nat) (factor : UInt8) :
    List (List UInt8) :=
  if src = dst then work
  else work.set dst (mulAdd factor (work.getD src []) (work.getD dst []))

/-- `[A | I]`. -/
def augment (rows : List (List UInt8)) (k : Nat) : List (List UInt8) :=
  rows.mapIdx fun r row => row ++ (List.replicate k 0).set r 1

/-- The first row at or below the diagonal that is not zero in the
column. -/
def findPivot (work : List (List UInt8)) (k col : Nat) : Option Nat :=
  (List.range' col (k - col)).find? fun pivot => «at» work pivot col ≠ 0

/-- The rounds of the elimination loop over `r`. -/
def eliminateOthers (work : List (List UInt8)) (col : Nat) (rs : List Nat) : List (List UInt8) :=
  rs.foldl (fun work r =>
    if r = col then work
    else
      let factor := «at» work r col
      if factor ≠ 0 then eliminateRow work col r factor else work) work

/-- One round of the loop over the columns. -/
def reduceColumn (k : Nat) (work : List (List UInt8)) (col : Nat) : Option (List (List UInt8)) :=
  match findPivot work k col with
  | none => none
  | some pivot =>
    let work := if pivot ≠ col then swapRows work pivot col else work
    let work := scaleRow work col (inv («at» work col col))
    some (eliminateOthers work col (List.range k))

def invertSubset (rows : List (List UInt8)) (k : Nat) : Option (List UInt8) :=
  if k = 0 ∨ rows.length ≠ k then none
  else if rows.any fun row => row.length ≠ k then none
  else do
    let work ← (List.range k).foldlM (reduceColumn k) (augment rows k)
    return work.flatMap fun row => row.drop k

end SlopDesk.Video.RsMatrix

/-! # Systematic Reed-Solomon erasure coding over a
frame's data fragments (`slopdesk-video/src/fec.rs`).

Each group of data shards gets `m` parity shards. A shard enters the
code as its length in four bytes and then its bytes, padded with zeros
to the widest of the group. At `m = 1` the parity is a plain XOR; from
`m = 2` on it is a Cauchy block over `group_size` columns, and a short
last group stands for one filled up with shards of zeros. `none` is the
panic of `parity_rows` when `k + m` exceeds the field.
-/

namespace SlopDesk.Video

open SlopDesk.Base
open SlopDesk.Base.Blocks

/-! ## Framing -/

/-- `PREFIX_BYTES`. -/
def prefixBytes : Nat := 4

/-- `length_prefixed`: the length is truncated to 32 bits. -/
def lengthPrefixed (data : List UInt8) : List UInt8 := toBe prefixBytes data.length ++ data

def stripLengthPrefix (data : List UInt8) : Option (List UInt8) :=
  if data.length < prefixBytes then none
  else
    let stop := prefixBytes + ofBe 0 (data.take prefixBytes)
    if stop ≤ data.length then some ((data.take stop).drop prefixBytes) else none

/-- `resize(width, 0)`. -/
def resize (data : List UInt8) (width : Nat) : List UInt8 :=
  data.take width ++ List.replicate (width - data.length) 0

/-- The widest of some regions. -/
def widest (lengths : List Nat) : Nat := lengths.foldl max 0

def xorLengthPrefixed (member acc : List UInt8) : List UInt8 :=
  let acc := Gf256.xorAdd (toBe prefixBytes member.length) acc
  if prefixBytes ≤ acc.length then
    acc.take prefixBytes ++ Gf256.xorAdd member (acc.drop prefixBytes)
  else acc

def xorEncoded (group : List (List UInt8)) : List UInt8 :=
  let width := widest (group.map fun member => prefixBytes + member.length)
  match group with
  | [] => []
  | first :: rest =>
    rest.foldl (fun acc member => xorLengthPrefixed member acc) (resize (lengthPrefixed first) width)

def xorRecover (parity : List UInt8) (survivors : List (List UInt8)) : List UInt8 :=
  let width := max parity.length (widest (survivors.map fun member => prefixBytes + member.length))
  survivors.foldl (fun acc member => xorLengthPrefixed member acc) (resize parity width)

def unitRow (k slot : Nat) : List UInt8 := (List.replicate k 0).set slot 1

/-! ## The codec -/

/-- `ReedSolomonFec`, with what `new` asserts. -/
structure ReedSolomonFec where
  groupSize : Nat
  parity : Nat
  groupSize_pos : 1 ≤ groupSize
  parity_pos : 1 ≤ parity
  fits : groupSize + parity ≤ 255
  deriving DecidableEq

namespace ReedSolomonFec

def default : ReedSolomonFec := ⟨5, 1, by decide, by decide, by decide⟩

def effectiveGroupSize (codec : ReedSolomonFec) (requested m : Nat) : Nat :=
  let floored := if requested < 1 then 1 else requested
  -- the XOR path has no ceiling
  if m = 1 then floored else min floored codec.groupSize

/-- One parity shard of `encode_group`. -/
def encodeRank (codec : ReedSolomonFec) (framed : List (List UInt8)) (width : Nat)
    (tables : List Gf256.MulTable) (rank : Nat) : List UInt8 :=
  framed.zipIdx.foldl (fun parity (shard, j) =>
    match tables[rank * codec.groupSize + j]? with
    | some table => table.addScaled shard parity
    | none => parity) (List.replicate width 0)

def encodeGroup (codec : ReedSolomonFec) (group : List (List UInt8)) (m : Nat)
    (tables : List Gf256.MulTable) : List (List UInt8) :=
  let framed := group.map lengthPrefixed
  let width := widest (framed.map List.length)
  (List.range m).map (codec.encodeRank framed width tables)

def parityM (codec : ReedSolomonFec) (data : List (List UInt8)) (requested m : Nat) :
    Option (List (List UInt8)) :=
  let groupSize := codec.effectiveGroupSize requested m
  if m = 1 then some ((chunks groupSize data).map xorEncoded)
  else do
    let coeffs ← RsMatrix.parityRows codec.groupSize m
    let tables := coeffs.map Gf256.MulTable.new
    return (chunks groupSize data).flatMap fun group => codec.encodeGroup group m tables

/-- `parity`. -/
def parityOf (codec : ReedSolomonFec) (data : List (List UInt8)) (groupSize : Nat) :
    Option (List (List UInt8)) :=
  codec.parityM data groupSize codec.parity

def parityWithM (codec : ReedSolomonFec) (data : List (List UInt8)) (groupSize m : Nat) :
    Option (List (List UInt8)) :=
  codec.parityM data groupSize (max m 1)

/-! ## Recovery -/

/-- A slot that is there and filled. -/
def slot? (slots : List (Option (List UInt8))) (i : Nat) : Option (List UInt8) :=
  (slots[i]?).join

/-- An encoder row and the framed bytes that go with it. -/
abbrev Survivor := List UInt8 × List UInt8

/-- The data shards of the group that are there. -/
def presentShards (k : Nat) (data : List (Option (List UInt8))) (index groupLen : Nat) :
    List Survivor :=
  (List.range groupLen).filterMap fun slot =>
    (slot? data (index + slot)).map fun bytes => (unitRow k slot, lengthPrefixed bytes)

/-- The shards of zeros a short last group stands for. -/
def phantomShards (k groupLen : Nat) : List Survivor :=
  (List.range' groupLen (k - groupLen)).map fun slot => (unitRow k slot, [])

/-- Parity shards that are there, until there are `k` survivors. -/
def fillFromParity (k : Nat) (parity : List (Option (List UInt8))) (coeffs : List UInt8)
    (parityBase m : Nat) (survivors : List Survivor) : List Survivor :=
  (List.range m).foldl (fun survivors rank =>
    if survivors.length < k then
      match slot? parity (parityBase + rank) with
      | some bytes => survivors ++ [((coeffs.drop (rank * k)).take k, bytes)]
      | none => survivors
    else survivors) survivors

/-- One missing shard, still framed. -/
def accumulate (inverse : List UInt8) (k slot width : Nat) (survivors : List Survivor) :
    List UInt8 :=
  survivors.zipIdx.foldl (fun acc (survivor, t) =>
    Gf256.mulAdd (inverse.getD (slot * k + t) 0) survivor.2 acc) (List.replicate width 0)

/-- The indices of the group that are missing. -/
def holesOf (data : List (Option (List UInt8))) (index upper : Nat) : List Nat :=
  (List.range' index (upper - index)).filter fun i => data[i]? = some none

/-- `recover_group` at `m = 1`. -/
def recoverXor (data parity : List (Option (List UInt8))) (index upper groupIndex : Nat)
    (holes : List Nat) : List (Option (List UInt8)) :=
  match slot? parity groupIndex with
  | none => data
  | some parityBytes =>
    let survivors := (List.range' index (upper - index)).filterMap (slot? data)
    match stripLengthPrefix (xorRecover parityBytes survivors), holes.head? with
    | some bytes, some hole => data.set hole (some bytes)
    | _, _ => data

/-- `recover_group` from `m = 2` on. -/
def recoverCauchy (k : Nat) (data parity : List (Option (List UInt8)))
    (index upper groupIndex m : Nat) (coeffs : List UInt8) (holes : List Nat) :
    List (Option (List UInt8)) :=
  let groupLen := upper - index
  let survivors := fillFromParity k parity coeffs (groupIndex * m) m
    (presentShards k data index groupLen ++ phantomShards k groupLen)
  if survivors.length < k then data
  else
    let survivors := survivors.take k
    match RsMatrix.invertSubset (survivors.map (·.1)) k with
    | none => data
    | some inverse =>
      let width := widest (survivors.map (·.2.length))
      holes.foldl (fun data hole =>
        match stripLengthPrefix (accumulate inverse k (hole - index) width survivors) with
        | some bytes => data.set hole (some bytes)
        | none => data) data

def recoverGroup (codec : ReedSolomonFec) (data parity : List (Option (List UInt8)))
    (index upper groupIndex m : Nat) : Option (List (Option (List UInt8))) :=
  let holes := holesOf data index upper
  if holes = [] ∨ m < holes.length then some data
  else if m = 1 then some (recoverXor data parity index upper groupIndex holes)
  else do
    let coeffs ← RsMatrix.parityRows codec.groupSize m
    return recoverCauchy codec.groupSize data parity index upper groupIndex m coeffs holes

def recoverM (codec : ReedSolomonFec) (data parity : List (Option (List UInt8)))
    (requested m : Nat) : Option (List (Option (List UInt8))) :=
  let groupSize := codec.effectiveGroupSize requested m
  (List.range (blockCount data.length groupSize)).foldlM (fun data groupIndex =>
    let index := groupIndex * groupSize
    codec.recoverGroup data parity index (min (index + groupSize) data.length) groupIndex m) data

def recover (codec : ReedSolomonFec) (data parity : List (Option (List UInt8)))
    (groupSize : Nat) : Option (List (Option (List UInt8))) :=
  codec.recoverM data parity groupSize codec.parity

def recoverWithM (codec : ReedSolomonFec) (data parity : List (Option (List UInt8)))
    (groupSize m : Nat) : Option (List (Option (List UInt8))) :=
  codec.recoverM data parity groupSize (max m 1)

end ReedSolomonFec

end SlopDesk.Video
