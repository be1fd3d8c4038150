/-
SlopDesk.Base.Utf8 — the shape of UTF-8.

A scalar is a first byte and the bytes that go on with it, as many as the
first one says; no byte that goes on with a scalar begins one. So a text can
be cut where the next byte does not go on, and nowhere else.
-/
import Mathlib.Algebra.GroupWithZero.Nat
import Mathlib.Data.List.Basic

namespace SlopDesk.Base.Utf8

/-- A byte that goes on with a scalar. -/
def Continues (byte : UInt8) : Prop := 128 ≤ byte.toNat ∧ byte.toNat < 192

instance (byte : UInt8) : Decidable (Continues byte) := inferInstanceAs (Decidable (_ ∧ _))

/-- How many bytes go on with the scalar that this one begins. -/
def owing (lead : UInt8) : Nat :=
  if lead.toNat < 192 then 0 else if lead.toNat < 224 then 1 else if lead.toNat < 240 then 2 else 3

/-- The bytes of a scalar. -/
structure Scalar (lead : UInt8) (rest : List UInt8) : Prop where
  first : lead.toNat < 128 ∨ 194 ≤ lead.toNat ∧ lead.toNat < 248
  length : rest.length = owing lead
  continues : ∀ byte ∈ rest, Continues byte

theorem toNat_ofNat {n : Nat} (h : n < 256) : (UInt8.ofNat n).toNat = n := UInt8.toNat_ofNat_of_lt h

theorem continues_ofNat (n : Nat) : Continues (UInt8.ofNat (n % 64 + 128)) := by
  rw [Continues, toNat_ofNat (by omega)]
  omega

theorem scalar_ofNat {lead : Nat} {rest : List UInt8} (hlead : lead < 128 ∨ 194 ≤ lead ∧ lead < 248)
    (hlength : rest.length = if lead < 192 then 0 else if lead < 224 then 1 else if lead < 240 then 2 else 3)
    (hrest : ∀ byte ∈ rest, Continues byte) : Scalar (UInt8.ofNat lead) rest := by
  have hback : (UInt8.ofNat lead).toNat = lead := toNat_ofNat (by omega)
  exact ⟨by rwa [hback], by rwa [owing, hback], hrest⟩

theorem scalar_utf8EncodeChar (c : Char) : ∃ lead rest, String.utf8EncodeChar c = lead :: rest ∧ Scalar lead rest := by
  rw [String.utf8EncodeChar]
  by_cases hone : c.val.toNat ≤ 127
  · refine ⟨_, [], if_pos hone, scalar_ofNat (.inl (by omega)) ?_ (by simp)⟩
    rw [if_pos (by omega)]
    rfl
  by_cases htwo : c.val.toNat ≤ 2047
  · refine ⟨_, _, by rw [if_neg hone, if_pos htwo], scalar_ofNat (by omega) ?_
      (List.forall_mem_singleton.mpr (continues_ofNat _))⟩
    rw [if_neg (by omega), if_pos (by omega)]
    rfl
  by_cases hthree : c.val.toNat ≤ 65535
  · refine ⟨_, _, by rw [if_neg hone, if_neg htwo, if_pos hthree], scalar_ofNat (by omega) ?_
      (List.forall_mem_cons.mpr ⟨continues_ofNat _, List.forall_mem_singleton.mpr (continues_ofNat _)⟩)⟩
    rw [if_neg (by omega), if_neg (by omega), if_pos (by omega)]
    rfl
  · refine ⟨_, _, by rw [if_neg hone, if_neg htwo, if_neg hthree], scalar_ofNat (by omega) ?_
      (List.forall_mem_cons.mpr ⟨continues_ofNat _, List.forall_mem_cons.mpr ⟨continues_ofNat _,
        List.forall_mem_singleton.mpr (continues_ofNat _)⟩⟩)⟩
    rfl

/-! ## Texts -/

/-- The bytes of a text. -/
def bytes (chars : List Char) : List UInt8 := chars.flatMap String.utf8EncodeChar

theorem bytes_cons (c : Char) (cs : List Char) : bytes (c :: cs) = String.utf8EncodeChar c ++ bytes cs :=
  List.flatMap_cons

theorem bytes_append (as bs : List Char) : bytes (as ++ bs) = bytes as ++ bytes bs := List.flatMap_append

/-! ## Bytes that need not be a text -/

/-- Whether `byte` may follow `lead`: no overlong form, no surrogate, nothing
past the last scalar. -/
def follows (lead byte : UInt8) : Bool :=
  (if lead = 0xE0 then 0xA0 else if lead = 0xF0 then 0x90 else 0x80) ≤ byte &&
    byte ≤ (if lead = 0xED then 0x9F else if lead = 0xF4 then 0x8F else 0xBF)

/-- How many of the bytes behind `lead` belong to the scalar it begins. -/
def belonging (lead : UInt8) (rest : List UInt8) : Nat :=
  match rest.take (owing lead) with
  | [] => 0
  | second :: more => if follows lead second then (more.takeWhile (Continues ·)).length + 1 else 0

/-- The scalar that `lead` begins, if all of it is there. -/
def scalarAt (lead : UInt8) (rest : List UInt8) : Option Char :=
  if lead < 0x80 then some (Char.ofNat lead.toNat)
  else if lead < 0xC2 ∨ 0xF4 < lead ∨ belonging lead rest ≠ owing lead then none
  else
    let first := lead.toNat % 2 ^ (6 - owing lead)
    some (Char.ofNat ((rest.take (owing lead)).foldl (fun value byte => value * 64 + byte.toNat % 64) first))

/-- `String::from_utf8_lossy` behind `skip` bytes: what begins no scalar, and
as much of it as could belong to one, is one replacement character. -/
def decodeFrom : Nat → List UInt8 → List Char
  | _, [] => []
  | skip + 1, _ :: rest => decodeFrom skip rest
  | 0, lead :: rest =>
    let held := if lead < 0xC2 ∨ 0xF4 < lead then 0 else belonging lead rest
    (scalarAt lead rest).getD '\uFFFD' :: decodeFrom held rest

def decodeLossy (bytes : List UInt8) : List Char := decodeFrom 0 bytes

end SlopDesk.Base.Utf8
