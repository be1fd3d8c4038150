/-
SlopDesk.Base.Lanes — a word of bytes, tested all at once.

§1 `word`, the number whose bytes stand lowest first. §2 taking one from
every byte borrows out of a byte only below a zero one, so the high bit that
`(w - ones) & !w & highs` leaves under the lowest zero byte is really set.
-/
import Mathlib.Data.Nat.Bitwise

namespace SlopDesk.Base.Lanes

/-! ## §1 Words -/

/-- The number whose bytes, lowest first, are these. -/
def word : List UInt8 → Nat
  | [] => 0
  | b :: rest => 256 * word rest + b.toNat

/-- The word with `b` in every lane. -/
def lanes (n : Nat) (b : UInt8) : Nat := word (List.replicate n b)

theorem word_lt (bytes : List UInt8) : word bytes < 256 ^ bytes.length := by
  induction bytes with
  | nil => simp [word]
  | cons b rest ih =>
    have hb := b.toNat_lt
    rw [word, List.length_cons, Nat.pow_succ]
    omega

theorem testBit_word_cons (b : UInt8) (rest : List UInt8) (i : Nat) :
    (word (b :: rest)).testBit i = if i < 8 then b.toNat.testBit i else (word rest).testBit (i - 8) :=
  Nat.testBit_two_pow_mul_add (word rest) b.toNat_lt i

theorem xor_word {xs ys : List UInt8} (h : xs.length = ys.length) :
    word xs ^^^ word ys = word (List.zipWith (· ^^^ ·) xs ys) := by
  induction xs generalizing ys with
  | nil =>
    cases ys with
    | nil => rfl
    | cons y ys => simp at h
  | cons x xs ih =>
    cases ys with
    | nil => simp at h
    | cons y ys =>
      have hrest := ih (Nat.succ.inj h)
      refine Nat.eq_of_testBit_eq fun i => ?_
      rw [Nat.testBit_xor, testBit_word_cons, testBit_word_cons, List.zipWith_cons_cons, testBit_word_cons,
        ← hrest]
      split
      · rw [UInt8.toNat_xor, Nat.testBit_xor]
      · rw [Nat.testBit_xor]

/-! ## §2 A zero byte -/

theorem lanes_one_lt (n : Nat) : lanes n 1 < 256 ^ n := by
  have h := word_lt (List.replicate n 1)
  rwa [List.length_replicate] at h

theorem lanes_succ (n : Nat) (b : UInt8) : lanes (n + 1) b = 256 * lanes n b + b.toNat := rfl

/-- Under the lowest zero byte the difference has a high bit that the word
has not. -/
theorem exists_high {bytes : List UInt8} (h : 0 ∈ bytes) :
    ∃ k < bytes.length, (word bytes).testBit (8 * k + 7) = false ∧
      (256 ^ bytes.length - lanes bytes.length 1 + word bytes).testBit (8 * k + 7) = true := by
  induction bytes with
  | nil => simp at h
  | cons b rest ih =>
    have hones := lanes_one_lt rest.length
    have hpow : 256 ^ (rest.length + 1) = 256 * 256 ^ rest.length := Nat.pow_succ'
    have hnext : lanes (rest.length + 1) 1 = 256 * lanes rest.length 1 + 1 := lanes_succ rest.length 1
    by_cases hb : b = 0
    · subst hb
      refine ⟨0, Nat.succ_pos _, ?_, ?_⟩
      · rw [testBit_word_cons]
        rfl
      · have hborrow : 256 ^ (rest.length + 1) - lanes (rest.length + 1) 1 + word (0 :: rest) =
            2 ^ 8 * (256 ^ rest.length - lanes rest.length 1 + word rest - 1) + 255 := by
          rw [word, UInt8.toNat_zero]
          omega
        rw [List.length_cons, hborrow, Nat.testBit_two_pow_mul_add _ (by decide)]
        rfl
    · obtain ⟨k, hk, hword, hdifference⟩ := ih ((List.mem_cons.mp h).resolve_left (Ne.symm hb))
      have hpositive : 0 < b.toNat := Nat.pos_of_ne_zero fun hzero => hb (UInt8.toNat_inj.mp hzero)
      have hnoBorrow : 256 ^ (rest.length + 1) - lanes (rest.length + 1) 1 + word (b :: rest) =
          2 ^ 8 * (256 ^ rest.length - lanes rest.length 1 + word rest) + (b.toNat - 1) := by
        rw [word]
        omega
      have hindex : ¬ 8 * (k + 1) + 7 < 8 := by omega
      have hshift : 8 * (k + 1) + 7 - 8 = 8 * k + 7 := by omega
      refine ⟨k + 1, Nat.succ_lt_succ hk, ?_, ?_⟩
      · rw [testBit_word_cons, if_neg hindex, hshift, hword]
      · have hsmall : b.toNat - 1 < 2 ^ 8 := by
          have := b.toNat_lt
          omega
        rw [List.length_cons, hnoBorrow, Nat.testBit_two_pow_mul_add _ hsmall, if_neg hindex, hshift, hdifference]

theorem testBit_lanes_high {n k : Nat} (hk : k < n) : (lanes n 0x80).testBit (8 * k + 7) = true := by
  induction n generalizing k with
  | zero => simp at hk
  | succ n ih =>
    have hbit := testBit_word_cons 0x80 (List.replicate n 0x80) (8 * k + 7)
    rw [lanes, List.replicate_succ, hbit]
    cases k with
    | zero => rfl
    | succ k =>
      rw [if_neg (by omega)]
      exact ih (k := k) (by omega)

/-- The test misses no zero byte. -/
theorem and_highs_ne_zero {w : Nat} {bytes : List UInt8} (hlength : 8 * bytes.length = w) (h : 0 ∈ bytes) :
    (BitVec.ofNat w (word bytes) - BitVec.ofNat w (lanes bytes.length 1)) &&& ~~~ BitVec.ofNat w (word bytes) &&&
      BitVec.ofNat w (lanes bytes.length 0x80) ≠ 0 := by
  obtain ⟨k, hk, hword, hdifference⟩ := exists_high h
  have hpow : 256 ^ bytes.length = 2 ^ w := by
    rw [← hlength, Nat.pow_mul]
  have hindex : 8 * k + 7 < w := by omega
  have hlanes : lanes bytes.length 1 < 2 ^ w := hpow ▸ lanes_one_lt bytes.length
  have hborrowed : (BitVec.ofNat w (word bytes) - BitVec.ofNat w (lanes bytes.length 1)).getLsbD (8 * k + 7) = true := by
    rw [BitVec.getLsbD, BitVec.toNat_sub, BitVec.toNat_ofNat, BitVec.toNat_ofNat, Nat.mod_eq_of_lt hlanes,
      Nat.add_mod_mod, Nat.testBit_mod_two_pow, ← hpow, hdifference]
    simp [hindex]
  have hclear : (BitVec.ofNat w (word bytes)).getLsbD (8 * k + 7) = false := by
    rw [BitVec.getLsbD_ofNat, hword, Bool.and_false]
  have hhigh : (BitVec.ofNat w (lanes bytes.length 0x80)).getLsbD (8 * k + 7) = true := by
    rw [BitVec.getLsbD_ofNat, testBit_lanes_high hk]
    simp [hindex]
  intro hzero
  have hbit := congrArg (fun v => BitVec.getLsbD v (8 * k + 7)) hzero
  simp only [BitVec.getLsbD_and, BitVec.getLsbD_not, hborrowed, hclear, hhigh] at hbit
  simp [hindex] at hbit

end SlopDesk.Base.Lanes
