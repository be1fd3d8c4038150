/-
SlopDesk.Base.VtParser — where a VT500 parser stands in a stream of bytes.

Only the outline of the parser is here: whether it is inside a sequence, of
which kind, and where that sequence was introduced. `ESC` introduces one
wherever it stands, `CAN` and `SUB` abort the one that is open. The entry,
parameter, intermediate and ignore states of a control sequence are one kind,
as they end at the same bytes, and so are the states of a device control
string and the strings that only `ST` ends; `ST` is an `ESC` of its own. The
stream is UTF-8, so bytes from 80 on are not controls.

`isSome_read_iff` says when bytes without an `ESC` leave the parser inside.
-/
import Mathlib.Data.List.Basic

namespace SlopDesk.Base.Vt

variable {byte : UInt8} {rest : List UInt8} {within : Within}
variable (offset : Nat)

/-- What a parser that is not at ground is inside of. -/
inductive Within where
  | escape
  | escapeIntermediate
  | csi
  | osc
  | string
  deriving DecidableEq, Repr

/-- At ground, or inside a sequence introduced at an offset. -/
abbrev State := Option (Nat × Within)

/-- `CAN` and `SUB`. -/
def Aborts (byte : UInt8) : Prop := byte = 0x18 ∨ byte = 0x1A

instance (byte : UInt8) : Decidable (Aborts byte) := inferInstanceAs (Decidable (_ ∨ _))

/-- The bytes that end a sequence of a kind in its own grammar. -/
def Within.Ends : Within → UInt8 → Prop
  | .escape, byte => 0x30 ≤ byte ∧ byte ≤ 0x7E
  | .escapeIntermediate, byte => 0x30 ≤ byte ∧ byte ≤ 0x7E
  | .csi, byte => 0x40 ≤ byte ∧ byte ≤ 0x7E
  | .osc, byte => byte = 0x07
  | .string, _ => False

instance (within : Within) (byte : UInt8) : Decidable (within.Ends byte) :=
  match within with
  | .escape => inferInstanceAs (Decidable (_ ∧ _))
  | .escapeIntermediate => inferInstanceAs (Decidable (_ ∧ _))
  | .csi => inferInstanceAs (Decidable (_ ∧ _))
  | .osc => inferInstanceAs (Decidable (_ = _))
  | .string => inferInstanceAs (Decidable False)

/-- What the byte behind an `ESC` makes of the sequence. -/
def introduced (byte : UInt8) : Option Within :=
  if byte = 0x5B then some .csi
  else if byte = 0x5D then some .osc
  else if byte = 0x50 ∨ byte = 0x58 ∨ byte = 0x5E ∨ byte = 0x5F then some .string
  else if 0x20 ≤ byte ∧ byte ≤ 0x2F then some .escapeIntermediate
  else if 0x30 ≤ byte ∧ byte ≤ 0x7E then none
  else some .escape

/-- One byte of a sequence. -/
def Within.next (within : Within) (byte : UInt8) : Option Within :=
  match within with
  | .escape => introduced byte
  | within => if within.Ends byte then none else some within

/-- One byte, at an offset. -/
def step (offset : Nat) (state : State) (byte : UInt8) : State :=
  if byte = 0x1B then some (offset, .escape)
  else if Aborts byte then none
  else state.bind fun (introducer, within) => (within.next byte).map (introducer, ·)

/-- The parser over bytes that begin at an offset. -/
def read (offset : Nat) (state : State) : List UInt8 → State
  | [] => state
  | byte :: rest => read (offset + 1) (step offset state byte) rest

@[simp] theorem read_nil (state : State) : read offset state [] = state := rfl

@[simp] theorem read_cons (state : State) (byte : UInt8) (rest : List UInt8) :
    read offset state (byte :: rest) = read (offset + 1) (step offset state byte) rest := rfl

theorem read_append (state : State) (bytes more : List UInt8) :
    read offset state (bytes ++ more) = read (offset + bytes.length) (read offset state bytes) more := by
  induction bytes generalizing offset state with
  | nil => rfl
  | cons byte bytes ih =>
    rw [List.cons_append, read_cons, read_cons, ih, List.length_cons, Nat.add_right_comm, Nat.add_assoc]

/-! ## Bytes without an introducer -/

theorem step_aborts (hbyte : byte ≠ 0x1B) (h : Aborts byte) (offset : Nat) (state : State) :
    step offset state byte = none := by
  rw [step, if_neg hbyte, if_pos h]

theorem step_inside (hbyte : byte ≠ 0x1B) (h : ¬ Aborts byte) (offset introducer : Nat) (within : Within) :
    step offset (some (introducer, within)) byte = (within.next byte).map (introducer, ·) := by
  rw [step, if_neg hbyte, if_neg h]
  rfl

theorem read_escape (state : State) (rest : List UInt8) :
    read offset state (0x1B :: rest) = read (offset + 1) (some (offset, .escape)) rest := by
  simp [step]

theorem read_ground (h : 0x1B ∉ rest) (offset : Nat) : read offset none rest = none := by
  induction rest generalizing offset with
  | nil => rfl
  | cons byte rest ih =>
    have hstep : step offset none byte = none := by
      have hbyte : byte ≠ 0x1B := fun heq => h (heq ▸ List.mem_cons_self ..)
      simp [step, hbyte]
    rw [read_cons, hstep, ih fun hmem => h (List.mem_cons_of_mem _ hmem)]

theorem read_opened (h : 0x1B ∉ rest) {offset introducer : Nat}
    {opened : Nat × Within} (hread : read offset (some (introducer, within)) rest = some opened) :
    opened.1 = introducer := by
  induction rest generalizing offset within with
  | nil =>
    cases hread
    rfl
  | cons byte rest ih =>
    have hbyte : byte ≠ 0x1B := fun heq => h (heq ▸ List.mem_cons_self ..)
    have hrest : 0x1B ∉ rest := fun hmem => h (List.mem_cons_of_mem _ hmem)
    rw [read_cons] at hread
    by_cases haborts : Aborts byte
    · grind [step_aborts, read_ground]
    · rw [step_inside hbyte haborts] at hread
      cases hnext : within.next byte with
      | none =>
        rw [hnext, Option.map_none, read_ground hrest] at hread
        contradiction
      | some within' =>
        rw [hnext] at hread
        exact ih hrest hread

/-- Past the byte behind its `ESC`, a sequence is open until a byte ends or
aborts it. -/
theorem isSome_read_iff (h : 0x1B ∉ rest) (hwithin : within ≠ .escape)
    (offset introducer : Nat) : (read offset (some (introducer, within)) rest).isSome ↔
      ∀ byte ∈ rest, ¬ Aborts byte ∧ ¬ within.Ends byte := by
  induction rest generalizing offset with
  | nil => simp
  | cons byte rest ih =>
    have hbyte : byte ≠ 0x1B := fun heq => h (heq ▸ List.mem_cons_self ..)
    have hrest : 0x1B ∉ rest := fun hmem => h (List.mem_cons_of_mem _ hmem)
    have hnext : within.next byte = if within.Ends byte then none else some within := by
      cases within with
      | escape => exact absurd rfl hwithin
      | escapeIntermediate => rfl
      | csi => rfl
      | osc => rfl
      | string => rfl
    by_cases haborts : Aborts byte
    · simp [step_aborts hbyte haborts, haborts, read_ground hrest]
    · by_cases hends : within.Ends byte
      · simp [step_inside hbyte haborts, hnext, hends, read_ground hrest]
      · simp [step_inside hbyte haborts, haborts, hnext, hends, ih hrest]

theorem read_introduced (hbyte : byte ≠ 0x1B) (haborts : ¬ Aborts byte)
    (h : introduced byte = some within) (offset introducer : Nat) (rest : List UInt8) :
    read offset (some (introducer, .escape)) (byte :: rest)
      = read (offset + 1) (some (introducer, within)) rest := by
  have hnext : Within.escape.next byte = some within := h
  rw [read_cons, step_inside hbyte haborts, hnext]
  rfl

end SlopDesk.Base.Vt
