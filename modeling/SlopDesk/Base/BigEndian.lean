/-
SlopDesk.Base.BigEndian — unsigned integers as fixed-width big-endian
byte strings, over any width.

`toBe w n` is the low `w` bytes of `n`, most significant first, and
`ofBe` the shift-and-or fold that reads them back. The one fact the
codecs rest on is `ofBe_toBe`: reading back what was written is the
identity below `256 ^ w`.
-/
import Mathlib.Algebra.Order.Ring.Int

namespace SlopDesk.Base

/-- The low `w` bytes of `n`, most significant first. -/
def toBe : (w n : Nat) → List UInt8
  | 0, _ => []
  | w + 1, n => UInt8.ofNat (n >>> (8 * w)) :: toBe w n

/-- One more byte read behind an accumulator. -/
def shiftIn (value : Nat) (byte : UInt8) : Nat := value <<< 8 ||| byte.toNat

/-- The bytes of a big-endian number, read behind an accumulator. -/
def ofBe (value : Nat) (bytes : List UInt8) : Nat := bytes.foldl shiftIn value

@[simp] theorem length_toBe (w n : Nat) : (toBe w n).length = w := by
  induction w with
  | zero => rfl
  | succ w ih => simp [toBe, ih]

theorem shiftIn_eq (value : Nat) (byte : UInt8) : shiftIn value byte = value * 256 + byte.toNat := by
  have hlt : byte.toNat < 2 ^ 8 := byte.toNat_lt
  rw [shiftIn, ← Nat.shiftLeft_add_eq_or_of_lt hlt, Nat.shiftLeft_eq]

theorem ofBe_toBe_acc (w n value : Nat) : ofBe value (toBe w n) = value * 256 ^ w + n % 256 ^ w := by
  induction w generalizing value with
  | zero => simp [ofBe, toBe, Nat.mod_one]
  | succ w ih =>
    have hbyte : (UInt8.ofNat (n >>> (8 * w))).toNat = n / 256 ^ w % 256 := by
      rw [UInt8.toNat_ofNat', Nat.shiftRight_eq_div_pow, Nat.pow_mul]
    have hmod : n % 256 ^ (w + 1) = 256 ^ w * (n / 256 ^ w % 256) + n % 256 ^ w := by
      rw [Nat.pow_succ, Nat.mod_mul, Nat.add_comm]
    calc ofBe value (toBe (w + 1) n)
        = ofBe (shiftIn value (UInt8.ofNat (n >>> (8 * w)))) (toBe w n) := rfl
      _ = (value * 256 + n / 256 ^ w % 256) * 256 ^ w + n % 256 ^ w := by
          rw [ih, shiftIn_eq, hbyte]
      _ = value * 256 ^ (w + 1) + n % 256 ^ (w + 1) := by
          rw [hmod, Nat.pow_succ, Nat.add_mul, Nat.mul_assoc, Nat.mul_comm 256 (256 ^ w),
            Nat.mul_comm (n / 256 ^ w % 256), Nat.add_assoc]

theorem ofBe_toBe {w n : Nat} (h : n < 256 ^ w) : ofBe 0 (toBe w n) = n := by
  rw [ofBe_toBe_acc, Nat.mod_eq_of_lt h]
  simp

/-! ## Written back -/

/-- A number of as many bytes is below the width, and one read behind an
accumulator is that much above it. -/
theorem ofBe_spec (value : Nat) (bytes : List UInt8) :
    ofBe value bytes = value * 256 ^ bytes.length + ofBe 0 bytes ∧ ofBe 0 bytes < 256 ^ bytes.length := by
  induction bytes generalizing value with
  | nil => simp [ofBe]
  | cons byte rest ih =>
    have hbyte : byte.toNat < 256 := byte.toNat_lt
    obtain ⟨hread, hlt⟩ := ih (shiftIn value byte)
    have hzero := (ih (shiftIn 0 byte)).1
    have hcons : ∀ start, ofBe start (byte :: rest) = ofBe (shiftIn start byte) rest := fun _ => rfl
    rw [hcons, hcons, hread, hzero, shiftIn_eq, shiftIn_eq, List.length_cons, Nat.pow_succ]
    generalize hpow : 256 ^ rest.length = width at hlt
    constructor
    · rw [Nat.add_mul, Nat.mul_assoc, Nat.mul_comm 256 width, Nat.zero_mul, Nat.zero_add, Nat.add_assoc]
    · have hstep : (0 * 256 + byte.toNat) * width ≤ 255 * width := Nat.mul_le_mul_right _ (by omega)
      omega

theorem toBe_add (w high low : Nat) : toBe w (high * 256 ^ w + low) = toBe w low := by
  induction w generalizing high with
  | zero => rfl
  | succ w ih =>
    have hdigit : (high * 256 ^ (w + 1) + low) / 256 ^ w = high * 256 + low / 256 ^ w := by
      rw [Nat.pow_succ, Nat.mul_comm (256 ^ w), ← Nat.mul_assoc,
        Nat.add_comm, Nat.add_mul_div_right _ _ (Nat.pow_pos (by decide)), Nat.add_comm]
    have hhead : UInt8.ofNat ((high * 256 ^ (w + 1) + low) >>> (8 * w)) = UInt8.ofNat (low >>> (8 * w)) := by
      apply UInt8.toNat_inj.mp
      have hwidth : (2 : Nat) ^ (8 * w) = 256 ^ w := Nat.pow_mul 2 8 w
      rw [UInt8.toNat_ofNat', UInt8.toNat_ofNat', Nat.shiftRight_eq_div_pow, Nat.shiftRight_eq_div_pow,
        hwidth, hdigit]
      omega
    have htail : high * 256 ^ (w + 1) + low = high * 256 * 256 ^ w + low := by
      rw [Nat.pow_succ, Nat.mul_assoc, Nat.mul_comm 256]
    rw [toBe, toBe, hhead, htail, ih]

theorem toBe_ofBe (bytes : List UInt8) : toBe bytes.length (ofBe 0 bytes) = bytes := by
  induction bytes with
  | nil => rfl
  | cons byte rest ih =>
    have hcons : ofBe 0 (byte :: rest) = ofBe (shiftIn 0 byte) rest := rfl
    obtain ⟨hread, hlt⟩ := ofBe_spec (shiftIn 0 byte) rest
    rw [shiftIn_eq, Nat.zero_mul, Nat.zero_add] at hread hcons
    have hdigit : (byte.toNat * 256 ^ rest.length + ofBe 0 rest) >>> (8 * rest.length) = byte.toNat := by
      rw [Nat.shiftRight_eq_div_pow, Nat.pow_mul, Nat.add_comm,
        Nat.add_mul_div_right _ _ (Nat.pow_pos (by decide)), Nat.div_eq_of_lt hlt, Nat.zero_add]
    rw [List.length_cons, hcons, hread, toBe, hdigit, toBe_add, ih, UInt8.ofNat_toNat]

end SlopDesk.Base
