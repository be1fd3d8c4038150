/-
SlopDesk.Base.SequenceSpace — 32-bit sequence numbers compared by their
signed wrap-around distance.

§1 the distance and the number a signed offset away. §2 the two undo each
other while the offset stays within half the space, so that every number
is at exactly one offset from a given one and offsets within half the
space add up.
-/
namespace SlopDesk.Base

/-! ## §1 Distance and offset -/

/-- `distance_wrapped`: positive when `value` is ahead of `other`. -/
def distanceWrapped (value other : UInt32) : Int := (value - other).toBitVec.toInt

/-- The number `a` past `base`. -/
def offset (base : UInt32) (a : Int) : UInt32 := base + ⟨.ofInt 32 a⟩

/-! ## §2 Laws -/

variable {x y base : UInt32} {a b : Int}

theorem distanceWrapped_ge (x y : UInt32) : -2147483648 ≤ distanceWrapped x y :=
  BitVec.le_toInt (x - y).toBitVec

theorem distanceWrapped_lt (x y : UInt32) : distanceWrapped x y < 2147483648 :=
  BitVec.toInt_lt (x := (x - y).toBitVec)

@[simp] theorem offset_zero (base : UInt32) : offset base 0 = base := by
  simp [offset]

theorem offset_offset (base : UInt32) (a b : Int) : offset (offset base a) b = offset base (a + b) := by
  simp [offset, ← UInt32.toBitVec_inj, BitVec.ofInt_add, BitVec.add_assoc]

theorem offset_succ (base : UInt32) (a : Int) : offset base a + 1 = offset base (a + 1) := by
  rw [← offset_offset]
  rfl

@[simp] theorem offset_distance (x base : UInt32) : offset base (distanceWrapped x base) = x := by
  have hcancel : base.toBitVec + (x - base).toBitVec = x.toBitVec := by
    rw [UInt32.toBitVec_sub, BitVec.add_comm, BitVec.sub_add_cancel]
  rw [← UInt32.toBitVec_inj, offset, distanceWrapped, BitVec.ofInt_toInt]
  exact hcancel

theorem distance_offset (base : UInt32) (hle : -2147483648 ≤ a) (hlt : a < 2147483648) :
    distanceWrapped (offset base a) base = a := by
  have hcancel : (offset base a - base).toBitVec = BitVec.ofInt 32 a := by
    rw [offset, UInt32.toBitVec_sub, UInt32.toBitVec_add, BitVec.add_comm, BitVec.add_sub_cancel]
  rw [distanceWrapped, hcancel, BitVec.toInt_ofInt]
  exact Int.bmod_eq_of_le (by omega) (by omega)

theorem distance_offset_offset (base : UInt32) (hle : -2147483648 ≤ a - b) (hlt : a - b < 2147483648) :
    distanceWrapped (offset base a) (offset base b) = a - b := by
  have hsplit : offset base a = offset (offset base b) (a - b) := by
    rw [offset_offset]
    congr 1
    omega
  rw [hsplit, distance_offset _ hle hlt]

@[simp] theorem distanceWrapped_self (x : UInt32) : distanceWrapped x x = 0 := by
  simpa using distance_offset x (a := 0) (by decide) (by decide)

theorem distanceWrapped_eq_zero : distanceWrapped x y = 0 ↔ x = y := by
  constructor
  · intro h
    rw [← offset_distance x y, h, offset_zero]
  · rintro rfl
    exact distanceWrapped_self x

theorem distance_sub (base : UInt32) (hle : -2147483648 ≤ distanceWrapped x base - distanceWrapped y base)
    (hlt : distanceWrapped x base - distanceWrapped y base < 2147483648) :
    distanceWrapped x y = distanceWrapped x base - distanceWrapped y base := by
  have h := distance_offset_offset base hle hlt
  rwa [offset_distance, offset_distance] at h

theorem distance_inj (h : distanceWrapped x base = distanceWrapped y base) : x = y := by
  rw [← offset_distance x base, h, offset_distance]

theorem distance_succ (h : -2147483648 < distanceWrapped x y) :
    distanceWrapped x (y + 1) = distanceWrapped x y - 1 := by
  have hlt := distanceWrapped_lt x y
  have hoffset := distance_offset_offset y (a := distanceWrapped x y) (b := 1) (by omega) (by omega)
  rwa [offset_distance] at hoffset

theorem distance_trans (x y z : UInt32) : ∃ turns : Int, -1 ≤ turns ∧ turns ≤ 1 ∧
    distanceWrapped x z = distanceWrapped x y + distanceWrapped y z + turns * 4294967296 := by
  have hsplit : (x - z).toBitVec = (x - y).toBitVec + (y - z).toBitVec := by
    simp only [UInt32.toBitVec_sub]
    bv_omega
  have hadd : distanceWrapped x z =
      (distanceWrapped x y + distanceWrapped y z).bmod 4294967296 := by
    rw [distanceWrapped, hsplit, BitVec.toInt_add]
    rfl
  have hxy := distanceWrapped_ge x y
  have hxy' := distanceWrapped_lt x y
  have hyz := distanceWrapped_ge y z
  have hyz' := distanceWrapped_lt y z
  rw [hadd, Int.bmod_def]
  split
  · exact ⟨-((distanceWrapped x y + distanceWrapped y z) / 4294967296), by omega, by omega, by omega⟩
  · exact ⟨-((distanceWrapped x y + distanceWrapped y z) / 4294967296) - 1, by omega, by omega,
      by omega⟩

theorem distance_symm (h : -2147483648 < distanceWrapped x y) :
    distanceWrapped y x = -distanceWrapped x y := by
  obtain ⟨turns, -, -, heq⟩ := distance_trans x y x
  have hlt := distanceWrapped_lt x y
  have hge' := distanceWrapped_ge y x
  have hlt' := distanceWrapped_lt y x
  rw [distanceWrapped_self] at heq
  omega

end SlopDesk.Base
