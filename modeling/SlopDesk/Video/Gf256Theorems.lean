/-
SlopDesk.Video.Gf256Theorems — the bytes with XOR and the table multiply
are a field.

§1 times `x` on bytes: it is linear over XOR, and the powers of the
generator return to one after 255 rounds and not before. §2 the tables:
`EXP` holds the powers, `LOG` their exponents, and every nonzero byte is
a power. §3 multiplication by a power is that many rounds of times `x`,
from which the field axioms follow. §4 the region operations add a
multiple of the source.
-/
import SlopDesk.Video.Fec
import Mathlib.Order.Interval.Finset.Nat
import Mathlib.Tactic.Ring

namespace SlopDesk.Video.Gf256

variable {v : UInt16}
variable {a : UInt8}
variable (i : Nat) (coeff : UInt8)

/-! ## §1 Times x -/

/-- `timesX` on numbers. -/
def timesXNat (n : Nat) : Nat := if n < 128 then 2 * n else (2 * n) ^^^ 0x11D

/-- `timesX` on bytes. -/
def byteTimesX (b : UInt8) : UInt8 := if b < 128 then b <<< 1 else (b <<< 1) ^^^ 0x1D

theorem timesXNat_lt {n : Nat} (h : n < 256) : timesXNat n < 256 := by
  revert n
  decide +kernel

theorem timesXNat_ne_zero {n : Nat} (h : n < 256) (h0 : n ≠ 0) : timesXNat n ≠ 0 := by
  revert n
  decide +kernel

theorem and_overflow {n : Nat} (h : n < 256) : ¬ (2 * n) &&& 0x100 = 0 ↔ ¬ n < 128 := by
  revert n
  decide +kernel

theorem toNat_byteTimesX (b : UInt8) : (byteTimesX b).toNat = timesXNat b.toNat := by
  have hb : b.toNat < 256 := b.toNat_lt
  have hlt : b < 128 ↔ b.toNat < 128 := by simp [UInt8.lt_iff_toNat_lt]
  have hshift : (b <<< 1).toNat = 2 * b.toNat % 256 := by
    simp [Nat.shiftLeft_eq]
    omega
  unfold byteTimesX timesXNat
  split
  · grind
  · rename_i h
    have h128 : ¬ b.toNat < 128 := fun hn => h (hlt.mpr hn)
    rw [if_neg h128, UInt8.toNat_xor, hshift]
    have hmod := Nat.xor_mod_two_pow (a := 2 * b.toNat) (b := 0x11D) (n := 8)
    have hsmall := timesXNat_lt hb
    rw [timesXNat, if_neg h128] at hsmall
    rw [Nat.mod_eq_of_lt (by simpa using hsmall)] at hmod
    rw [hmod]
    rfl

theorem toNat_timesX (h : v.toNat < 256) : (timesX v).toNat = timesXNat v.toNat := by
  have hshift : (v <<< 1).toNat = 2 * v.toNat := by
    simp [Nat.shiftLeft_eq]
    omega
  have hand : ((v <<< 1) &&& 0x100) ≠ 0 ↔ ¬ v.toNat < 128 := by
    rw [Ne, ← UInt16.toNat_inj, UInt16.toNat_and, hshift]
    exact and_overflow h
  unfold timesX timesXNat primitivePoly
  dsimp only
  split
  · rename_i hbit
    rw [if_neg (hand.mp hbit), UInt16.toNat_xor, hshift]
    rfl
  · grind

theorem byteTimesX_toUInt8 (h : v.toNat < 256) : (timesX v).toUInt8 = byteTimesX v.toUInt8 := by
  rw [← UInt8.toNat_inj, toNat_byteTimesX, UInt16.toNat_toUInt8, UInt16.toNat_toUInt8,
    toNat_timesX h, Nat.mod_eq_of_lt h, Nat.mod_eq_of_lt (timesXNat_lt h)]

@[simp] theorem byteTimesX_zero : byteTimesX 0 = 0 := by decide

theorem byteTimesX_xor (a b : UInt8) : byteTimesX (a ^^^ b) = byteTimesX a ^^^ byteTimesX b := by
  have htop : ∀ c : UInt8, c < 128 ↔ c.toBitVec.msb = false := by
    intro c
    rw [BitVec.msb_eq_decide, UInt8.lt_iff_toNat_lt]
    simp
  have hmsb : (a ^^^ b).toBitVec.msb = (a.toBitVec.msb ^^ b.toBitVec.msb) := BitVec.msb_xor
  have hshift : (a ^^^ b) <<< 1 = a <<< 1 ^^^ b <<< 1 := UInt8.shiftLeft_xor
  have hself : ∀ c d : UInt8, c ^^^ (d ^^^ d) = c := by
    intro c d
    rw [UInt8.xor_self, UInt8.xor_zero]
  simp only [byteTimesX, htop, hmsb, hshift]
  cases a.toBitVec.msb <;> cases b.toBitVec.msb
  · simp
  · simp [UInt8.xor_assoc]
  · grind
  · simp only [Bool.xor_self, Bool.true_eq_false, if_false, if_true]
    rw [← hself (a <<< 1 ^^^ b <<< 1) 0x1D]
    ac_rfl

/-- Doubling from `v` does not meet `target` in `n` rounds. -/
def avoids (target : Nat) : Nat → Nat → Bool
  | 0, _ => true
  | n + 1, v => v != target && avoids target n (timesXNat v)

theorem iterate_ne_of_avoids {target n v : Nat} (h : avoids target n v = true) {i : Nat}
    (hi : i < n) : timesXNat^[i] v ≠ target := by
  induction n generalizing v i with
  | zero => omega
  | succ n ih =>
    simp only [avoids, Bool.and_eq_true, bne_iff_ne] at h
    cases i with
    | zero => exact h.1
    | succ i =>
      exact ih h.2 (by omega)

/-! ## §2 Powers and tables -/

/-- The `i`-th power of the generator. -/
def power (i : Nat) : UInt8 := byteTimesX^[i] 1

@[simp] theorem power_zero : power 0 = 1 := rfl

theorem power_succ : power (i + 1) = byteTimesX (power i) :=
  Function.iterate_succ_apply' ..

theorem power_add (i j : Nat) : power (i + j) = byteTimesX^[i] (power j) :=
  Function.iterate_add_apply ..

theorem toNat_power : (power i).toNat = timesXNat^[i] 1 := by
  induction i with
  | zero => rfl
  | succ i ih => rw [power_succ, toNat_byteTimesX, ih, Function.iterate_succ_apply']

theorem power_ne_zero : power i ≠ 0 := by
  induction i with
  | zero => decide
  | succ i ih =>
    intro h
    have hnat : timesXNat (power i).toNat = 0 := by
      rw [← toNat_byteTimesX, ← power_succ, h]
      rfl
    refine timesXNat_ne_zero (power i).toNat_lt (fun h0 => ih ?_) hnat
    exact UInt8.toNat_inj.mp h0

theorem power_period : power (i + 255) = power i := by
  have hone : power 255 = 1 := by
    decide +kernel
  rw [power_add, hone]
  rfl

theorem byteTimesX_injective : Function.Injective byteTimesX := by
  intro a b h
  have hzero : byteTimesX (a ^^^ b) = 0 := by rw [byteTimesX_xor, h, UInt8.xor_self]
  have hnat : (a ^^^ b).toNat = 0 := by
    by_contra h0
    refine timesXNat_ne_zero (a ^^^ b).toNat_lt h0 ?_
    rw [← toNat_byteTimesX, hzero]
    rfl
  have hxor : a ^^^ b = 0 := UInt8.toNat_inj.mp hnat
  calc a = a ^^^ b ^^^ b := by rw [UInt8.xor_assoc, UInt8.xor_self, UInt8.xor_zero]
    _ = b := by rw [hxor, UInt8.zero_xor]

theorem power_ne_one {d : Nat} (h0 : 0 < d) (h : d < 255) : power d ≠ 1 := by
  intro hone
  have hnat : timesXNat^[d] 1 = 1 := by rw [← toNat_power, hone]; rfl
  obtain ⟨i, rfl⟩ : ∃ i, d = i + 1 := ⟨d - 1, by omega⟩
  rw [Function.iterate_succ_apply] at hnat
  exact iterate_ne_of_avoids (n := 254) (by decide +kernel) (by omega) hnat

theorem power_injOn {i j : Nat} (hij : i ≤ j) (hj : j < 255) (h : power i = power j) : i = j := by
  by_contra hne
  have hsplit : j = i + (j - i) := by omega
  rw [hsplit, power_add] at h
  have hone := byteTimesX_injective.iterate i h
  exact power_ne_one (by omega) (by omega) hone.symm

theorem expCycle_eq {n : Nat} (h : v.toNat < 256) :
    expCycle n v = (List.range n).map fun i => byteTimesX^[i] v.toUInt8 := by
  induction n generalizing v with
  | zero => rfl
  | succ n ih =>
    have hnext : (timesX v).toNat < 256 := toNat_timesX h ▸ timesXNat_lt h
    rw [expCycle, ih hnext, List.range_succ_eq_map, List.map_cons, List.map_map,
      byteTimesX_toUInt8 h]
    rfl

theorem expAt_eq {i : Nat} (h : i < 512) : expAt i = power i := by
  obtain ⟨cycle, hcycle, hlen, hget⟩ : ∃ cycle, expCycle 255 1 = cycle ∧ cycle.length = 255 ∧
      ∀ j < 255, cycle[j]? = some (power j) := by
    refine ⟨_, expCycle_eq (by decide), by rw [List.length_map, List.length_range], ?_⟩
    intro j hj
    rw [List.getElem?_map, List.getElem?_range hj]
    rfl
  unfold expAt buildExp
  rw [hcycle, List.getD_eq_getElem?_getD]
  rcases Nat.lt_or_ge i 255 with h1 | h1
  · grind
  · rcases Nat.lt_or_ge i 510 with h2 | h2
    · have hone : i - 255 + 255 = i := by omega
      rw [List.getElem?_append_left (by simp [hlen]; omega), List.getElem?_append_right (by omega),
        hlen, hget (i - 255) (by omega), Option.getD_some, ← power_period, hone]
    · have htwo : i - 510 + 255 + 255 = i := by omega
      rw [List.getElem?_append_right (by simp [hlen]; omega), List.length_append, hlen,
        List.getElem?_take_of_lt (by omega), hget (i - 510) (by omega), Option.getD_some,
        ← power_period, ← power_period, htwo]

theorem getD_foldl_set {key : Nat → Nat} {val : Nat → UInt8} {table : List UInt8} {n : Nat}
    (hinj : ∀ i j, i ≤ j → j < n → key i = key j → i = j) (hlt : ∀ i, key i < table.length) :
    ∀ i < n, ((List.range n).foldl (fun t j => t.set (key j) (val j)) table).getD (key i) 0 =
      val i := by
  induction n with
  | zero => simp
  | succ n ih =>
    intro i hi
    have hlen : ((List.range n).foldl (fun t j => t.set (key j) (val j)) table).length =
        table.length := by
      generalize List.range n = js
      clear ih hinj hi hlt
      induction js generalizing table with
      | nil => rfl
      | cons j js ih => rw [List.foldl_cons, ih, List.length_set]
    rw [List.range_succ, List.foldl_append, List.foldl_cons, List.foldl_nil,
      List.getD_eq_getElem?_getD, List.getElem?_set]
    rcases Nat.lt_succ_iff_lt_or_eq.mp hi with hlt' | rfl
    · rw [if_neg fun h => absurd (hinj i n hlt'.le (by omega) h.symm) (by omega),
        ← List.getD_eq_getElem?_getD]
      exact ih (fun a b hab hb => hinj a b hab (by omega)) i hlt'
    · rw [if_pos rfl, if_pos (hlen ▸ hlt i)]
      rfl

theorem logOf_power {i : Nat} (h : i < 255) : (logOf (power i)).toNat = i := by
  have hfold : buildLog buildExp =
      (List.range 255).foldl (fun t j => t.set (power j).toNat (.ofNat j)) (List.replicate 256 0) := by
    refine List.foldl_ext _ _ _ fun t j hj => ?_
    have hj : j < 255 := List.mem_range.mp hj
    rw [← expAt_eq (by omega)]
    rfl
  have hentry : logOf (power i) = .ofNat i := by
    rw [logOf, hfold]
    refine @getD_foldl_set (fun j => (power j).toNat) (fun j => .ofNat j) _ _ ?_ ?_ i h
    · intro a b hab hb heq
      exact power_injOn hab hb (UInt8.toNat_inj.mp heq)
    · intro j
      rw [List.length_replicate]
      exact (power j).toNat_lt
  rw [hentry]
  simp
  omega

theorem exists_power (ha : a ≠ 0) : ∃ i < 255, power i = a := by
  have hinj : Set.InjOn (fun i => (power i).toNat) (Finset.range 255) := by
    intro i hi j hj heq
    have hpow : power i = power j := UInt8.toNat_inj.mp heq
    rw [Finset.coe_range, Set.mem_Iio] at hi hj
    rcases Nat.le_total i j with hij | hij
    · exact power_injOn hij hj hpow
    · exact (power_injOn hij hi hpow.symm).symm
  have himage : (Finset.range 255).image (fun i => (power i).toNat) = Finset.Ico 1 256 := by
    refine Finset.eq_of_subset_of_card_le ?_ ?_
    · intro n hn
      obtain ⟨i, -, rfl⟩ := Finset.mem_image.mp hn
      have hlt := (power i).toNat_lt
      have hne : (power i).toNat ≠ 0 := fun h => power_ne_zero i (UInt8.toNat_inj.mp h)
      rw [Finset.mem_Ico]
      omega
    · rw [Finset.card_image_of_injOn hinj]
      simp
  have hmem : a.toNat ∈ Finset.Ico 1 256 := by
    have hne : a.toNat ≠ 0 := fun h => ha (UInt8.toNat_inj.mp h)
    rw [Finset.mem_Ico]
    exact ⟨by omega, a.toNat_lt⟩
  rw [← himage] at hmem
  obtain ⟨i, hi, heq⟩ := Finset.mem_image.mp hmem
  exact ⟨i, Finset.mem_range.mp hi, UInt8.toNat_inj.mp heq⟩

/-! ## §3 The field -/

theorem iterate_byteTimesX_zero : byteTimesX^[i] 0 = 0 :=
  Function.iterate_fixed byteTimesX_zero i

theorem iterate_byteTimesX_xor (a b : UInt8) :
    byteTimesX^[i] (a ^^^ b) = byteTimesX^[i] a ^^^ byteTimesX^[i] b := by
  induction i generalizing a b with
  | zero => rfl
  | succ i ih => simp only [Function.iterate_succ_apply, byteTimesX_xor, ih]

theorem mul_power {i : Nat} (hi : i < 255) (b : UInt8) : mul (power i) b = byteTimesX^[i] b := by
  unfold mul
  by_cases hb : b = 0
  · rw [if_pos (.inr hb), hb, iterate_byteTimesX_zero]
  · obtain ⟨j, hj, rfl⟩ := exists_power hb
    rw [if_neg (not_or.mpr ⟨power_ne_zero i, hb⟩), logOf_power hi, logOf_power hj,
      expAt_eq (by omega), power_add]

@[simp] theorem mul_zero_left (b : UInt8) : mul 0 b = 0 := by simp [mul]

theorem mul_comm (a b : UInt8) : mul a b = mul b a := by
  unfold mul
  simp only [Nat.add_comm, or_comm]

theorem mul_xor (a b c : UInt8) : mul a (b ^^^ c) = mul a b ^^^ mul a c := by
  by_cases ha : a = 0
  · simp [ha]
  · obtain ⟨i, hi, rfl⟩ := exists_power ha
    simp only [mul_power hi, iterate_byteTimesX_xor]

theorem mul_byteTimesX (b c : UInt8) : mul (byteTimesX b) c = byteTimesX (mul b c) := by
  rw [mul_comm (byteTimesX b), mul_comm b]
  by_cases hc : c = 0
  · simp [hc]
  · obtain ⟨j, hj, rfl⟩ := exists_power hc
    rw [mul_power hj, mul_power hj, ← Function.iterate_succ_apply, Function.iterate_succ_apply']

theorem mul_assoc (a b c : UInt8) : mul (mul a b) c = mul a (mul b c) := by
  by_cases ha : a = 0
  · simp [ha]
  · obtain ⟨i, hi, rfl⟩ := exists_power ha
    rw [mul_power hi, mul_power hi]
    clear ha hi
    induction i generalizing b with
    | zero => rfl
    | succ i ih =>
      rw [Function.iterate_succ_apply, ih, mul_byteTimesX, ← Function.iterate_succ_apply]

theorem mul_one (a : UInt8) : mul a 1 = a := by
  rw [mul_comm]
  exact mul_power (i := 0) (by decide) a

theorem mul_inv (ha : a ≠ 0) : mul a (inv a) = 1 := by
  obtain ⟨i, hi, rfl⟩ := exists_power ha
  have hinv : inv (power i) = power (255 - i) := by
    rw [inv, if_neg ha, logOf_power hi, expAt_eq (by omega)]
  have hsum : i + (255 - i) = 0 + 255 := by omega
  rw [hinv, mul_power hi, ← power_add, hsum, power_period, power_zero]

/-- A byte as an element of the field. -/
@[ext] structure Element where
  byte : UInt8

namespace Element

instance : Zero Element := ⟨⟨0⟩⟩
instance : One Element := ⟨⟨1⟩⟩
instance : Add Element := ⟨fun a b => ⟨a.byte ^^^ b.byte⟩⟩
instance : Neg Element := ⟨id⟩
instance : Mul Element := ⟨fun a b => ⟨mul a.byte b.byte⟩⟩
instance : Inv Element := ⟨fun a => ⟨inv a.byte⟩⟩

instance : Field Element where
  nsmul := nsmulRec
  zsmul := zsmulRec
  nnqsmul := _
  nnqsmul_def := fun _ _ => rfl
  qsmul := _
  qsmul_def := fun _ _ => rfl
  add_assoc a b c := Element.ext (UInt8.xor_assoc ..)
  zero_add a := Element.ext UInt8.zero_xor
  add_zero a := Element.ext UInt8.xor_zero
  add_comm a b := Element.ext (UInt8.xor_comm ..)
  neg_add_cancel a := Element.ext UInt8.xor_self
  left_distrib a b c := Element.ext (mul_xor ..)
  right_distrib a b c := Element.ext (by
    change mul (a.byte ^^^ b.byte) c.byte = mul a.byte c.byte ^^^ mul b.byte c.byte
    rw [mul_comm, mul_xor, mul_comm c.byte, mul_comm c.byte])
  zero_mul a := Element.ext (mul_zero_left a.byte)
  mul_zero a := Element.ext (by
    change mul a.byte 0 = 0
    rw [mul_comm, mul_zero_left])
  mul_assoc a b c := Element.ext (mul_assoc ..)
  one_mul a := Element.ext (by
    change mul 1 a.byte = a.byte
    rw [mul_comm, mul_one])
  mul_one a := Element.ext (mul_one _)
  mul_comm a b := Element.ext (mul_comm ..)
  exists_pair_ne := ⟨⟨0⟩, ⟨1⟩, fun h => absurd (congrArg byte h) (by decide)⟩
  mul_inv_cancel a ha := Element.ext (mul_inv fun h => ha (Element.ext h))
  inv_zero := rfl

@[simp] theorem byte_one : (1 : Element).byte = 1 := rfl

theorem add_self (a : Element) : a + a = 0 := Element.ext UInt8.xor_self

theorem sub_eq_add (a b : Element) : a - b = a + b := by
  rw [sub_eq_iff_eq_add, add_assoc, add_self, add_zero]

end Element

/-! ## §4 Regions -/

@[simp] theorem length_zipInto (f : UInt8 → UInt8 → UInt8) (src dst : List UInt8) :
    (zipInto f src dst).length = dst.length := by
  induction dst generalizing src with
  | nil => cases src <;> rfl
  | cons d dst ih =>
    cases src with
    | nil => rfl
    | cons s src => simp [zipInto, ih]

theorem zipInto_congr {f g : UInt8 → UInt8 → UInt8} (h : ∀ d s, f d s = g d s)
    (src dst : List UInt8) : zipInto f src dst = zipInto g src dst := by
  have hfg : f = g := by
    funext d s
    exact h d s
  rw [hfg]

theorem zipInto_left (src dst : List UInt8) : zipInto (fun d _ => d) src dst = dst := by
  induction dst generalizing src with
  | nil => cases src <;> rfl
  | cons d dst ih =>
    cases src with
    | nil => rfl
    | cons s src => simp [zipInto, ih]

/-- Byte `i` of a region padded with zeros, as an element. -/
def byteAt (region : List UInt8) (i : Nat) : Element := ⟨region.getD i 0⟩

theorem byteAt_nil : byteAt [] i = 0 := by rfl

theorem byteAt_of_length_le {region : List UInt8} {i : Nat} (h : region.length ≤ i) :
    byteAt region i = 0 := by
  rw [byteAt, List.getD_eq_getElem?_getD, List.getElem?_eq_none h]
  rfl

theorem byteAt_zipInto (src dst : List UInt8) (i : Nat) :
    byteAt (zipInto (fun d s => d ^^^ mul coeff s) src dst) i =
      if i < dst.length then byteAt dst i + ⟨coeff⟩ * byteAt src i else 0 := by
  induction dst generalizing src i with
  | nil => cases src <;> simp [zipInto, byteAt_nil]
  | cons d dst ih =>
    cases src with
    | nil =>
      rw [zipInto, byteAt_nil, mul_zero, add_zero]
      · split
        · rfl
        · rename_i h
          exact byteAt_of_length_le (Nat.le_of_not_lt h)
      · simp
    | cons s src =>
      cases i with
      | zero => rfl
      | succ i =>
        have hih := ih src i
        simpa [zipInto, byteAt] using hih

theorem nibbles_nat {n : Nat} (h : n < 256) :
    n &&& 0x0F < 16 ∧ n >>> 4 < 16 ∧ (n &&& 0x0F) ^^^ ((n >>> 4 % 256) <<< 4 % 256) = n := by
  revert n
  decide +kernel

theorem addScaled_new (src dst : List UInt8) : (MulTable.new coeff).addScaled src dst =
      zipInto (fun d s => d ^^^ mul coeff s) src dst := by
  refine zipInto_congr (fun d s => ?_) src dst
  obtain ⟨hlow, hhigh, hsplit⟩ := nibbles_nat s.toNat_lt
  have hentry : ∀ (f : Nat → UInt8) (n : Nat), n < 16 →
      ((List.range 16).map fun nibble => mul coeff (f nibble)).getD n 0 = mul coeff (f n) := by
    intro f n hn
    simp [List.getD_eq_getElem?_getD, hn]
  have hbyte : .ofNat (s &&& 0x0F).toNat ^^^ .ofNat ((s >>> 4).toNat <<< 4) = s := by
    rw [← UInt8.toNat_inj]
    simpa using hsplit
  have hlow' : (s &&& 0x0F).toNat < 16 := by simpa using hlow
  have hhigh' : (s >>> 4).toNat < 16 := by simpa using hhigh
  simp only [MulTable.new]
  rw [hentry (fun n => .ofNat n) _ hlow', hentry (fun n => .ofNat (n <<< 4)) _ hhigh', ← mul_xor,
    hbyte]

theorem mulAdd_eq (src dst : List UInt8) :
    mulAdd coeff src dst = zipInto (fun d s => d ^^^ mul coeff s) src dst := by
  unfold mulAdd
  split
  · rename_i h
    subst h
    have hzero : ∀ d s : UInt8, d ^^^ mul 0 s = d := by simp
    rw [zipInto_congr hzero, zipInto_left]
  · rename_i h0
    split
    · rename_i h1
      subst h1
      refine zipInto_congr (fun d s => ?_) src dst
      rw [mul_comm, mul_one]
    · split
      · exact addScaled_new coeff src dst
      · refine zipInto_congr (fun d s => ?_) src dst
        by_cases hs : s = 0
        · simp [hs, mul]
        · simp [hs, h0, mul]

@[simp] theorem length_mulAdd (src dst : List UInt8) : (mulAdd coeff src dst).length = dst.length := by
  rw [mulAdd_eq, length_zipInto]

theorem byteAt_mulAdd (src dst : List UInt8) (i : Nat) : byteAt (mulAdd coeff src dst) i =
      if i < dst.length then byteAt dst i + ⟨coeff⟩ * byteAt src i else 0 := by
  rw [mulAdd_eq, byteAt_zipInto]

end SlopDesk.Video.Gf256
