/-
SlopDesk.Video.AnnexB — NAL units in their two framings
(`slopdesk-video/src/nal_unit.rs` and `annexb.rs`).

AVCC puts a big-endian length before each unit, Annex-B a start code of
three or four bytes between them. Both are read as the ranges the units sit
at, and the bytes are taken from there.

  §1 The two walks, and the rewrite of the one framing as the other.
  §2 AVCC: what was joined is split again.
  §3 Annex-B: a buffer is a layout of start codes and clean units.
  §4 The units survive the rewrite.
-/
import Mathlib.Data.List.Infix
import SlopDesk.Base.BigEndian

namespace SlopDesk.Video

open SlopDesk.Base

/-! ## §1 The walks -/

/-- `Range<usize>`. -/
structure Span where
  start : Nat
  stop : Nat
  deriving DecidableEq, Repr

/-- `get` of a range: nothing when the buffer does not hold it whole. -/
def Span.get (span : Span) (bytes : List UInt8) : Option (List UInt8) :=
  if span.start ≤ span.stop ∧ span.stop ≤ bytes.length then
    some ((bytes.drop span.start).take (span.stop - span.start))
  else none

def truncatingU32 (value : Nat) : UInt32 := UInt32.ofNat value

namespace NalUnit

/-- `LENGTH_PREFIX_SIZE`. -/
def lengthPrefixSize : Nat := 4

/-- The loop of `split_ranges`, from `offset` on. A prefix of zero, or of
more than is left, ends it. -/
def walk (avcc : List UInt8) (offset : Nat) : List Span :=
  match (Span.mk offset (offset + lengthPrefixSize)).get avcc with
  | none => []
  | some header =>
    let length := ofBe 0 header
    let start := offset + lengthPrefixSize
    if length > 0 ∧ length + start ≤ avcc.length then
      ⟨start, length + start⟩ :: walk avcc (length + start)
    else []
termination_by avcc.length - offset
decreasing_by simp only [lengthPrefixSize] at *; omega

def splitRanges (avcc : List UInt8) : List Span := walk avcc 0

def split (avcc : List UInt8) : List (List UInt8) :=
  (splitRanges avcc).filterMap fun unit => unit.get avcc

/-- A unit behind its length. -/
def prefixed (unit : List UInt8) : List UInt8 := toBe 4 (truncatingU32 unit.length).toNat ++ unit

def join (units : List (List UInt8)) : List UInt8 := units.flatMap prefixed

end NalUnit

namespace AnnexB

/-- The loop of `split_ranges` that finds the start codes, from `index` on:
where each is, and how long. -/
def scan (annexb : List UInt8) (index : Nat) : List (Nat × Nat) :=
  if index + 3 ≤ annexb.length then
    if annexb[index]? = some 0 ∧ annexb[index + 1]? = some 0 then
      if annexb[index + 2]? = some 1 then (index, 3) :: scan annexb (index + 3)
      else if annexb[index + 2]? = some 0 ∧ annexb[index + 3]? = some 1 then
        (index, 4) :: scan annexb (index + 4)
      else scan annexb (index + 1)
    else scan annexb (index + 1)
  else []
termination_by annexb.length - index

/-- The loop of `split_ranges` over the start codes. A unit that would be
empty is dropped. -/
def unitsBetween (annexb : List UInt8) : List (Nat × Nat) → List Span
  | [] => []
  | (offset, codeLen) :: rest =>
    let start := offset + codeLen
    let stop := (rest.head?.map Prod.fst).getD annexb.length
    if start < stop then ⟨start, stop⟩ :: unitsBetween annexb rest else unitsBetween annexb rest

def splitRanges (annexb : List UInt8) : List Span := unitsBetween annexb (scan annexb 0)

def split (annexb : List UInt8) : List (List UInt8) :=
  (splitRanges annexb).filterMap fun unit => unit.get annexb

/-- The loop of `to_avcc`. -/
def writeUnits (annexb : List UInt8) : List Span → Option (List UInt8)
  | [] => some []
  | unit :: rest => do
    let bytes ← unit.get annexb
    let out ← writeUnits annexb rest
    pure (NalUnit.prefixed bytes ++ out)

/-- `to_avcc`: nothing for a buffer without a unit. -/
def toAvcc (annexb : List UInt8) : Option (List UInt8) :=
  let units := splitRanges annexb
  if units.isEmpty then none else writeUnits annexb units

end AnnexB

/-! ## §2 AVCC -/

theorem Span.get_middle (before middle after : List UInt8) :
    (Span.mk before.length (before.length + middle.length)).get (before ++ (middle ++ after)) =
      some middle := by
  have hinside : before.length ≤ before.length + middle.length ∧
      before.length + middle.length ≤ (before ++ (middle ++ after)).length := by
    simp
  show (if _ then _ else _) = _
  rw [if_pos hinside, List.drop_left, Nat.add_sub_cancel_left, List.take_left]

namespace NalUnit

theorem toNat_truncatingU32 {n : Nat} (h : n < 4294967296) : (truncatingU32 n).toNat = n := by
  simp [truncatingU32, Nat.mod_eq_of_lt h]

theorem walk_join (units : List (List UInt8)) (before : List UInt8)
    (hunits : ∀ unit ∈ units, unit ≠ [] ∧ unit.length < 4294967296) :
    (walk (before ++ join units) before.length).filterMap (fun unit => unit.get (before ++ join units)) =
      units := by
  induction units generalizing before with
  | nil =>
    have hnone : (Span.mk before.length (before.length + lengthPrefixSize)).get (before ++ join []) =
        none := by
      simp [Span.get, join, lengthPrefixSize]
    rw [walk, hnone]
    rfl
  | cons unit rest ih =>
    obtain ⟨hnonempty, hfits⟩ := hunits unit List.mem_cons_self
    have hlength : (toBe 4 (truncatingU32 unit.length).toNat).length = lengthPrefixSize := length_toBe ..
    have hpos : 0 < unit.length := List.length_pos_of_ne_nil hnonempty
    have hread : ofBe 0 (toBe 4 (truncatingU32 unit.length).toNat) = unit.length := by
      rw [toNat_truncatingU32 hfits, ofBe_toBe (by simpa using hfits)]
    have hjoin : join (unit :: rest) =
        toBe 4 (truncatingU32 unit.length).toNat ++ (unit ++ join rest) := by
      simp [join, prefixed]
    have hheader : (Span.mk before.length (before.length + lengthPrefixSize)).get
        (before ++ join (unit :: rest)) = some (toBe 4 (truncatingU32 unit.length).toNat) := by
      rw [hjoin, ← hlength]
      exact Span.get_middle ..
    have hbefore : (before ++ toBe 4 (truncatingU32 unit.length).toNat).length =
        before.length + lengthPrefixSize := by
      rw [List.length_append, hlength]
    have hunit : (Span.mk (before.length + lengthPrefixSize)
        (unit.length + (before.length + lengthPrefixSize))).get (before ++ join (unit :: rest)) =
          some unit := by
      rw [hjoin, ← List.append_assoc, ← hbefore, Nat.add_comm]
      exact Span.get_middle ..
    have hinside : unit.length > 0 ∧
        unit.length + (before.length + lengthPrefixSize) ≤ (before ++ join (unit :: rest)).length := by
      grind
    -- the walk goes on behind the unit, and there the others are
    have hrest := ih (before ++ toBe 4 (truncatingU32 unit.length).toNat ++ unit)
      fun other hother => hunits other (List.mem_cons_of_mem _ hother)
    have hsame : before ++ toBe 4 (truncatingU32 unit.length).toNat ++ unit ++ join rest =
        before ++ join (unit :: rest) := by
      rw [hjoin]
      simp only [List.append_assoc]
    rw [hsame, List.length_append, hbefore, Nat.add_comm] at hrest
    rw [walk, hheader]
    simp only [hread]
    rw [if_pos hinside, List.filterMap_cons, hunit, hrest]

theorem split_join {units : List (List UInt8)}
    (hunits : ∀ unit ∈ units, unit ≠ [] ∧ unit.length < 4294967296) : split (join units) = units :=
  walk_join units [] hunits

end NalUnit

/-! ## §3 Annex-B -/

namespace AnnexB

variable {bytes annexb : List UInt8} {index : Nat}
variable {byte : UInt8} {starts : List (Nat × Nat)} {spans : List Span} {units : List (List UInt8)}
variable {unit : List UInt8}

/-- The two start codes. -/
def startCodes : List (List UInt8) := [[0, 0, 1], [0, 0, 0, 1]]

/-- No start code begins anywhere in `bytes`: the longer one ends in the
shorter. -/
def Clean (bytes : List UInt8) : Prop := ¬ [0, 0, 1] <:+: bytes

/-- A start code and the unit behind it, one after another. -/
def laidOut (pieces : List (List UInt8 × List UInt8)) : List UInt8 :=
  pieces.flatMap fun piece => piece.1 ++ piece.2

/-- `annexb` is something without a start code, and then start codes with a
unit behind each. -/
structure Layout (annexb before : List UInt8) (pieces : List (List UInt8 × List UInt8)) : Prop where
  covers : annexb = before ++ laidOut pieces
  before_clean : Clean before
  codes : ∀ piece ∈ pieces, piece.1 ∈ startCodes
  units_clean : ∀ piece ∈ pieces, Clean piece.2

/-- Where the start codes of a layout are, the first of them at `offset`. -/
def startsFrom : (offset : Nat) → List (List UInt8 × List UInt8) → List (Nat × Nat)
  | _, [] => []
  | offset, (code, unit) :: rest =>
    (offset, code.length) :: startsFrom (offset + code.length + unit.length) rest

theorem clean_of_length (h : bytes.length < 3) : Clean bytes := by
  intro hinfix
  have hle : ([0, 0, 1] : List UInt8).length ≤ bytes.length := hinfix.length_le
  simp only [List.length_cons, List.length_nil] at hle
  omega

theorem drop_of_getElem?
    (h : bytes[index]? = some byte) : bytes.drop index = byte :: bytes.drop (index + 1) := by
  obtain ⟨hlt, rfl⟩ := List.getElem?_eq_some_iff.mp h
  exact List.drop_eq_getElem_cons hlt

theorem Clean.cons (h : Clean bytes) (hstart : ¬ [0, 0, 1] <+: byte :: bytes) : Clean (byte :: bytes) := by
  intro hinfix
  rcases List.infix_cons_iff.mp hinfix with hprefix | hrest
  · exact hstart hprefix
  · exact h hrest

theorem not_prefix_of_passed
    (hpassed : ¬ (annexb[index]? = some 0 ∧ annexb[index + 1]? = some 0 ∧ annexb[index + 2]? = some 1)) :
    ¬ [0, 0, 1] <+: annexb.drop index := by
  rintro ⟨rest, hrest⟩
  have hat (k : Nat) : annexb[index + k]? = ([0, 0, 1] ++ rest)[k]? := by
    rw [hrest, List.getElem?_drop]
  exact hpassed ⟨hat 0, hat 1, hat 2⟩

/-- What the scan finds from `index` on. -/
def Found (annexb : List UInt8) (index : Nat) (starts : List (Nat × Nat)) : Prop :=
  ∃ before pieces, Layout (annexb.drop index) before pieces ∧
    starts = startsFrom (index + before.length) pieces

theorem Found.code {code : List UInt8}
    (hcode : code ∈ startCodes) (hat : annexb.drop index = code ++ annexb.drop (index + code.length))
    (h : Found annexb (index + code.length) starts) :
    Found annexb index ((index, code.length) :: starts) := by
  obtain ⟨before, pieces, hlayout, rfl⟩ := h
  refine ⟨[], (code, before) :: pieces, ?_, ?_⟩
  · constructor
    · rw [hat, hlayout.covers]
      simp [laidOut]
    · exact clean_of_length (by simp)
    · exact List.forall_mem_cons.mpr ⟨hcode, hlayout.codes⟩
    · exact List.forall_mem_cons.mpr ⟨hlayout.before_clean, hlayout.units_clean⟩
  · simp [startsFrom]

theorem Found.pass (hlt : index < annexb.length)
    (hpassed : ¬ (annexb[index]? = some 0 ∧ annexb[index + 1]? = some 0 ∧ annexb[index + 2]? = some 1))
    (h : Found annexb (index + 1) starts) : Found annexb index starts := by
  obtain ⟨before, pieces, hlayout, rfl⟩ := h
  have hdrop : annexb.drop index = annexb[index] :: before ++ laidOut pieces := by
    rw [List.drop_eq_getElem_cons hlt, hlayout.covers, List.cons_append]
  refine ⟨annexb[index] :: before, pieces, ?_, ?_⟩
  · refine ⟨hdrop, hlayout.before_clean.cons fun hprefix => not_prefix_of_passed hpassed ?_,
      hlayout.codes, hlayout.units_clean⟩
    rw [hdrop]
    exact hprefix.trans (List.prefix_append ..)
  · rw [List.length_cons, Nat.add_right_comm, Nat.add_assoc]

theorem scan_found (annexb : List UInt8) (index : Nat) : Found annexb index (scan annexb index) := by
  fun_induction scan annexb index with
  | case1 index _ hzeros hone ih =>
    have hcode : [0, 0, 1] ∈ startCodes := by simp [startCodes]
    refine Found.code hcode ?_ ih
    rw [drop_of_getElem? hzeros.1, drop_of_getElem? hzeros.2, drop_of_getElem? hone]
    rfl
  | case2 index _ hzeros _ hlong ih =>
    have hcode : [0, 0, 0, 1] ∈ startCodes := by simp [startCodes]
    refine Found.code hcode ?_ ih
    rw [drop_of_getElem? hzeros.1, drop_of_getElem? hzeros.2, drop_of_getElem? hlong.1,
      drop_of_getElem? hlong.2]
    rfl
  | case3 index hroom _ hone _ ih =>
    exact ih.pass (by omega) fun h => hone h.2.2
  | case4 index hroom hzeros ih =>
    exact ih.pass (by omega) fun h => hzeros ⟨h.1, h.2.1⟩
  | case5 index hend =>
    refine ⟨annexb.drop index, [], ?_, rfl⟩
    refine ⟨by simp [laidOut], clean_of_length ?_, by simp, by simp⟩
    rw [List.length_drop]
    omega

theorem units_of_layout (pieces : List (List UInt8 × List UInt8)) (before : List UInt8) :
    (unitsBetween (before ++ laidOut pieces) (startsFrom before.length pieces)).map
        (fun unit => unit.get (before ++ laidOut pieces)) =
      ((pieces.map Prod.snd).filter (· ≠ [])).map some := by
  induction pieces generalizing before with
  | nil => rfl
  | cons piece rest ih =>
    obtain ⟨code, unit⟩ := piece
    have hlaid : laidOut ((code, unit) :: rest) = code ++ (unit ++ laidOut rest) := by
      simp [laidOut]
    -- a unit ends where the next start code is, or at the end of the buffer
    have hstop : ((startsFrom (before.length + code.length + unit.length) rest).head?.map Prod.fst).getD
        (before ++ laidOut ((code, unit) :: rest)).length =
          before.length + code.length + unit.length := by
      cases rest with
      | nil => simp [laidOut, startsFrom, Nat.add_assoc]
      | cons next others => rfl
    have hrest := ih (before ++ code ++ unit)
    have hsame : before ++ code ++ unit ++ laidOut rest = before ++ laidOut ((code, unit) :: rest) := by
      rw [hlaid]
      simp only [List.append_assoc]
    rw [hsame, List.length_append, List.length_append] at hrest
    rw [startsFrom, unitsBetween]
    simp only [hstop]
    by_cases hempty : unit = []
    case pos =>
      subst hempty
      rw [if_neg (by simp), hrest]
      simp
    case neg =>
      have hpos : 0 < unit.length := List.length_pos_of_ne_nil hempty
      have hget : (Span.mk (before.length + code.length)
          (before.length + code.length + unit.length)).get
            (before ++ laidOut ((code, unit) :: rest)) = some unit := by
        rw [hlaid, ← List.append_assoc, ← List.length_append]
        exact Span.get_middle ..
      rw [if_pos (by omega), List.map_cons, hget, hrest]
      simp [hempty]

theorem splitRanges_layout (annexb : List UInt8) :
    ∃ before pieces, Layout annexb before pieces ∧
      (splitRanges annexb).map (fun unit => unit.get annexb) =
        ((pieces.map Prod.snd).filter (· ≠ [])).map some := by
  obtain ⟨before, pieces, hlayout, hstarts⟩ := scan_found annexb 0
  rw [List.drop_zero] at hlayout
  rw [Nat.zero_add] at hstarts
  refine ⟨before, pieces, hlayout, ?_⟩
  rw [splitRanges, hstarts, hlayout.covers]
  exact units_of_layout pieces before

theorem filterMap_get (h : spans.map (fun unit => unit.get annexb) = units.map some) :
    spans.filterMap (fun unit => unit.get annexb) = units := by
  have hmap := congrArg (List.filterMap id) h
  simpa [List.filterMap_map] using hmap

/-! ## §4 The rewrite -/

theorem writeUnits_eq (h : spans.map (fun unit => unit.get annexb) = units.map some) :
    writeUnits annexb spans = some (NalUnit.join units) := by
  induction spans generalizing units with
  | nil =>
    cases units with
    | nil => rfl
    | cons unit rest => cases h
  | cons span spans ih =>
    cases units with
    | nil => cases h
    | cons unit rest =>
      obtain ⟨hunit, hrest⟩ := List.cons.inj h
      have hget : span.get annexb = some unit := hunit
      rw [writeUnits, hget, ih hrest]
      rfl

/-- The units of an Annex-B buffer. No start code begins in one; they come
in order, and they are all of the buffer behind the first start code but the
start codes themselves and the units that are empty. There is no AVCC
conversion exactly when there is no unit, and the AVCC conversion splits
into the same units, when none is too long for its length prefix. -/
theorem units_preserved (annexb : List UInt8)
    (hsizes : ∀ unit ∈ split annexb, unit.length < 4294967296) :
    (∃ before pieces, Layout annexb before pieces ∧
      split annexb = (pieces.map Prod.snd).filter (· ≠ [])) ∧
    (∀ unit ∈ split annexb, Clean unit) ∧
    match toAvcc annexb with
    | none => split annexb = []
    | some avcc => split annexb ≠ [] ∧ NalUnit.split avcc = split annexb := by
  obtain ⟨before, pieces, hlayout, hspans⟩ := splitRanges_layout annexb
  have hsplit : split annexb = (pieces.map Prod.snd).filter (· ≠ []) := filterMap_get hspans
  have hunit : ∀ unit ∈ split annexb, unit ∈ pieces.map Prod.snd ∧ unit ≠ [] := by
    simp [hsplit]
  refine ⟨⟨before, pieces, hlayout, hsplit⟩, ?_, ?_⟩
  · intro unit hmem
    obtain ⟨piece, hpiece, rfl⟩ := List.mem_map.mp (hunit unit hmem).1
    exact hlayout.units_clean piece hpiece
  · rw [← hsplit] at hspans
    by_cases hnone : splitRanges annexb = []
    case pos =>
      have hempty : split annexb = [] := by rw [split, hnone]; rfl
      simp [toAvcc, hnone, hempty]
    case neg =>
      have hsome : split annexb ≠ [] := by
        intro hempty
        rw [hempty] at hspans
        exact hnone (List.map_eq_nil_iff.mp hspans)
      have havcc : toAvcc annexb = some (NalUnit.join (split annexb)) := by
        rw [toAvcc, ← writeUnits_eq hspans]
        simp [hnone]
      rw [havcc]
      exact ⟨hsome, NalUnit.split_join fun unit hmem => ⟨(hunit unit hmem).2, hsizes unit hmem⟩⟩

theorem length_le_of_mem_split (h : unit ∈ split annexb) : unit.length ≤ annexb.length := by
  obtain ⟨span, -, hget⟩ := List.mem_filterMap.mp h
  unfold Span.get at hget
  split at hget
  · grind
  · cases hget

/-- Two units, behind a start code of each kind, the first with a zero at
its end. -/
theorem units_preserved_two :
    let annexb : List UInt8 := [0, 0, 0, 1, 0x67, 0, 0, 0, 0, 1, 0x68, 2]
    ∀ unit ∈ split annexb, Clean unit := by
  intro annexb
  refine (units_preserved annexb fun unit hunit => ?_).2.1
  exact Nat.lt_of_le_of_lt (length_le_of_mem_split hunit) (by decide)

theorem scan_of_no_zero (h : ∀ i, index ≤ i → annexb[i]? ≠ some 0) : scan annexb index = [] := by
  fun_induction scan annexb index with
  | case1 index _ hzeros _ _ => exact absurd hzeros.1 (h index (Nat.le_refl _))
  | case2 index _ hzeros _ _ _ => exact absurd hzeros.1 (h index (Nat.le_refl _))
  | case3 index _ hzeros _ _ _ => exact absurd hzeros.1 (h index (Nat.le_refl _))
  | case4 index _ _ ih => exact ih fun i hi => h i (by omega)
  | case5 => rfl

/-- A unit of `2 ^ 32` bytes is written behind a length of zero, which ends
the walk of the conversion. -/
theorem split_long_unit (hlength : unit.length = 4294967296) (hbytes : ∀ byte ∈ unit, byte ≠ 0) :
    split ([0, 0, 1] ++ unit) = [unit] ∧
      ∃ avcc, toAvcc ([0, 0, 1] ++ unit) = some avcc ∧ NalUnit.split avcc = [] := by
  have hscan : scan ([0, 0, 1] ++ unit) 0 = [(0, 3)] := by
    have hbehind : scan ([0, 0, 1] ++ unit) 3 = [] := by
      refine scan_of_no_zero fun i hi hzero => ?_
      rw [List.getElem?_append_right hi] at hzero
      exact hbytes 0 (List.mem_of_getElem? hzero) rfl
    rw [scan, if_pos (by simp), if_pos (by simp), if_pos (by simp), hbehind]
  have hspans : splitRanges ([0, 0, 1] ++ unit) = [⟨3, 3 + unit.length⟩] := by
    rw [splitRanges, hscan]
    simp [unitsBetween, hlength]
  have hget : (splitRanges ([0, 0, 1] ++ unit)).map (fun span => span.get ([0, 0, 1] ++ unit)) =
      [unit].map some := by
    have hmiddle := Span.get_middle [0, 0, 1] unit []
    rw [List.append_nil] at hmiddle
    rw [hspans]
    exact congrArg (fun found => [found]) hmiddle
  have hprefixed : NalUnit.join [unit] = [0, 0, 0, 0] ++ unit := by
    have hzero : toBe 4 (truncatingU32 4294967296).toNat = [0, 0, 0, 0] := by decide
    simp [NalUnit.join, NalUnit.prefixed, hlength, hzero]
  refine ⟨filterMap_get hget, [0, 0, 0, 0] ++ unit, ?_, ?_⟩
  · rw [toAvcc, writeUnits_eq hget, hprefixed, hspans]
    rfl
  · have hheader : (Span.mk 0 (0 + NalUnit.lengthPrefixSize)).get ([0, 0, 0, 0] ++ unit) =
        some [0, 0, 0, 0] := Span.get_middle [] [0, 0, 0, 0] unit
    have hwalk : NalUnit.splitRanges ([0, 0, 0, 0] ++ unit) = [] := by
      rw [NalUnit.splitRanges, NalUnit.walk, hheader]
      exact if_neg fun h => absurd h.1 (by decide)
    rw [NalUnit.split, hwalk]
    rfl

/-- Such a unit: `2 ^ 32` bytes of one. -/
theorem long_unit_lost :
    let unit := List.replicate 4294967296 (1 : UInt8)
    split ([0, 0, 1] ++ unit) = [unit] ∧
      ∃ avcc, toAvcc ([0, 0, 1] ++ unit) = some avcc ∧ NalUnit.split avcc ≠ split ([0, 0, 1] ++ unit) := by
  intro unit
  have hbytes : ∀ byte ∈ unit, byte ≠ 0 := by
    grind
  obtain ⟨hsplit, avcc, havcc, hnone⟩ := split_long_unit (List.length_replicate ..) hbytes
  refine ⟨hsplit, avcc, havcc, ?_⟩
  rw [hnone, hsplit]
  exact (List.cons_ne_nil _ _).symm

end AnnexB

end SlopDesk.Video
