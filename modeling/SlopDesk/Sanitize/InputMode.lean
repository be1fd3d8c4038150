/-
SlopDesk.Sanitize.InputMode — mode changes kept out of a replay
(`slopdesk-sanitize/src/inputmode.rs`).

What makes a terminal send input is taken out of the replayed bytes, and
the state it nets to is asserted again behind them. Two loops walk the
bytes alike: `strip` rewrites and simulates, `finalState` only simulates.

The loops are written over the bytes from the cursor on. A parameter byte
is never a sign, so an `i64` that is read here is not negative.
-/
import SlopDesk.Base.BTree
import SlopDesk.Sanitize.VtScan

namespace SlopDesk.Sanitize

open SlopDesk.Base

/-! ## Numbers in parameters -/

def leadingInt (bytes : List UInt8) : Option Nat := parseField (bytes.takeWhile isAsciiDigit)

/-- `i64::to_string`, as bytes. -/
def decimal (n : Nat) : List UInt8 := (Nat.toDigits 10 n).map fun digit => UInt8.ofNat digit.toNat

/-! ## The tracked state -/

/-- `TRACKED_MODES`. -/
def trackedModes : List Nat :=
  [1, 9, 1000, 1001, 1002, 1003, 1004, 1005, 1006, 1015, 1016, 2004, 2031, 2048]

def isTracked (mode : Nat) : Bool := mode ∈ trackedModes

/-- `STACK_CAP`. -/
def stackCap : Nat := 32

/-- The kitty flags: an `i64` that is not negative. -/
abbrev Flags := BitVec 63

/-- `InputModeFinalState`. -/
@[ext]
structure InputModeFinalState where
  modes : BTreeMap Nat Bool
  savedModes : BTreeMap Nat Bool
  kittyBase : Flags
  kittyStack : List Flags
  capped : kittyStack.length ≤ stackCap

namespace InputModeFinalState

/-- `InputModeFinalState::default`. -/
def fresh : InputModeFinalState := ⟨∅, ∅, 0, [], by decide⟩

/-- Whether a mode nets on. -/
def isOn (state : InputModeFinalState) (mode : Nat) : Bool := state.modes[mode]?.getD false

def apply (state : InputModeFinalState) (mode : Nat) (enabled : Bool) : InputModeFinalState :=
  { state with modes := state.modes.insert mode enabled }

def save (state : InputModeFinalState) (mode : Nat) : InputModeFinalState :=
  { state with savedModes := state.savedModes.insert mode (state.modes[mode]?.getD false) }

/-- `restore`: without a save the mode goes off. -/
def restore (state : InputModeFinalState) (mode : Nat) : InputModeFinalState :=
  { state with modes := state.modes.insert mode (state.savedModes[mode]?.getD false) }

def kittyPush (state : InputModeFinalState) (flags : Flags) : InputModeFinalState :=
  if h : state.kittyStack.length < stackCap then
    { state with kittyStack := state.kittyStack ++ [flags], capped := by simpa [Nat.succ_le_iff] using h }
  else state

def kittyPop (state : InputModeFinalState) (count : Nat) : InputModeFinalState :=
  let drop := min count state.kittyStack.length
  { state with
    kittyStack := state.kittyStack.take (state.kittyStack.length - drop)
    capped := by have := state.capped; simp only [List.length_take]; omega }

/-- `updated`, in `kitty_set`. -/
def updated (current flags : Flags) (mode : Nat) : Flags :=
  match mode with
  | 2 => current ||| flags
  | 3 => current &&& ~~~flags
  | _ => flags

/-- `kitty_set`, of the top entry or, without one, of the base. -/
def kittySet (state : InputModeFinalState) (flags : Flags) (mode : Nat) : InputModeFinalState :=
  let current := state.kittyStack.getLast?.getD state.kittyBase
  let updated := updated current flags mode
  if h : state.kittyStack = [] then { state with kittyBase := updated }
  else
    { state with
      kittyStack := state.kittyStack.dropLast ++ [updated]
      capped := by
        have := state.capped
        have := List.length_pos_of_ne_nil h
        simp only [List.length_append, List.length_dropLast, List.length_singleton]
        omega }

def isNeutral (state : InputModeFinalState) : Bool :=
  state.kittyBase == 0 && state.kittyStack.isEmpty && !state.modes.toList.any (·.2)

def reassertSequence (state : InputModeFinalState) : List UInt8 :=
  (state.modes.toList.flatMap fun (mode, enabled) =>
      if enabled then [esc, 0x5B, 0x3F] ++ decimal mode ++ [0x68] else []) ++
    (if state.kittyBase ≠ 0 then
      [esc, 0x5B, 0x3D] ++ decimal state.kittyBase.toNat ++ [0x3B, 0x31, 0x75] else []) ++
    state.kittyStack.flatMap fun flags => [esc, 0x5B, 0x3E] ++ decimal flags.toNat ++ [0x75]

end InputModeFinalState

open InputModeFinalState

/-! ## One sequence -/

/-- The tracked mode a field names. -/
def trackedMode (field : List UInt8) : Option Nat := (parseField field).filter isTracked

/-- `rewrite_tracked`: what replaces the sequence, if anything does, and the
state after `act` on each tracked mode. -/
def rewriteTracked (csi : Csi) (state : InputModeFinalState)
    (act : InputModeFinalState → Nat → InputModeFinalState) : Option (List UInt8) × InputModeFinalState :=
  let fields := (csi.params.drop 1).splitOn 0x3B
  let kept := fields.filter fun field => trackedMode field = none
  let state := (fields.filterMap trackedMode).foldl act state
  if fields.filterMap trackedMode = [] then (none, state)
  else if kept = [] then (some [], state)
  else (some ([esc, 0x5B, 0x3F] ++ [0x3B].intercalate kept ++ [csi.finalByte]), state)

/-- `process`: `none` keeps the sequence as it is. -/
def process (csi : Csi) (state : InputModeFinalState) : Option (List UInt8) × InputModeFinalState :=
  let params := csi.params.drop 1
  if csi.intermediates ≠ [] then (none, state)
  else if csi.finalByte = 0x68 ∨ csi.finalByte = 0x6C then
    if csi.params.head? ≠ some 0x3F then (none, state)
    else rewriteTracked csi state fun state mode => state.apply mode (csi.finalByte = 0x68)
  else if csi.finalByte = 0x73 ∨ csi.finalByte = 0x72 then
    if csi.params.head? ≠ some 0x3F then (none, state)
    else rewriteTracked csi state fun state mode =>
      if csi.finalByte = 0x73 then state.save mode else state.restore mode
  else if csi.finalByte = 0x75 then
    if csi.params.head? = some 0x3E then
      (some [], state.kittyPush (BitVec.ofNat 63 ((leadingInt params).getD 0)))
    else if csi.params.head? = some 0x3C then
      (some [], state.kittyPop ((leadingInt params).getD 1))
    else if csi.params.head? = some 0x3D then
      let fields := params.splitOn 0x3B
      let flags := (fields[0]?.bind leadingInt).getD 0
      let mode := (fields[1]?.bind leadingInt).getD 1
      (some [], state.kittySet (BitVec.ofNat 63 flags) mode)
    else (none, state)
  else (none, state)

/-! ## The two loops -/

/-- The loop of `strip`. -/
def stripFrom (state : InputModeFinalState) (bytes : List UInt8) : List UInt8 × InputModeFinalState :=
  match bytes with
  | [] => ([], state)
  | [byte] => ([byte], state)
  | byte :: introducer :: tail =>
    if byte ≠ esc then
      let (out, final) := stripFrom state (introducer :: tail)
      (byte :: out, final)
    else if introducer = 0x5B then
      match _hcsi : parseCsi (byte :: introducer :: tail) 0 with
      | none => (byte :: introducer :: tail, state)
      | some csi =>
        let (rewritten, state) := process csi state
        let (out, final) := stripFrom state ((byte :: introducer :: tail).drop csi.stop)
        (rewritten.getD ((byte :: introducer :: tail).take csi.stop) ++ out, final)
    else
      match stringIntroducer introducer with
      | some belTerminates =>
        match _hseq : stringSequenceEnd (byte :: introducer :: tail) 2 (.replay belTerminates) with
        | none => (byte :: introducer :: tail, state)
        | some seq =>
          let (out, final) := stripFrom state ((byte :: introducer :: tail).drop seq.seqEnd)
          ((byte :: introducer :: tail).take seq.seqEnd ++ out, final)
      | none =>
        let (out, final) := stripFrom state tail
        (byte :: introducer :: out, final)
termination_by bytes.length
decreasing_by
  · simp
  · have := parseCsi_stop_pos ‹_›
    simp only [List.length_drop, List.length_cons]
    omega
  · have := le_stringSequenceEnd ‹_›
    simp only [List.length_drop, List.length_cons]
    omega
  · simp only [List.length_cons]
    omega

def strip (bytes : List UInt8) : List UInt8 × InputModeFinalState := stripFrom fresh bytes

/-- The loop of `final_state`. -/
def finalFrom (state : InputModeFinalState) (bytes : List UInt8) : InputModeFinalState :=
  match bytes with
  | [] => state
  | [_] => state
  | byte :: introducer :: tail =>
    if byte ≠ esc then finalFrom state (introducer :: tail)
    else if introducer = 0x5B then
      match _hcsi : parseCsi (byte :: introducer :: tail) 0 with
      | none => state
      | some csi => finalFrom (process csi state).2 ((byte :: introducer :: tail).drop csi.stop)
    else
      match stringIntroducer introducer with
      | some belTerminates =>
        match _hseq : stringSequenceEnd (byte :: introducer :: tail) 2 (.replay belTerminates) with
        | none => state
        | some seq => finalFrom state ((byte :: introducer :: tail).drop seq.seqEnd)
      | none => finalFrom state tail
termination_by bytes.length
decreasing_by
  · simp
  · have := parseCsi_stop_pos ‹_›
    simp only [List.length_drop, List.length_cons]
    omega
  · have := le_stringSequenceEnd ‹_›
    simp only [List.length_drop, List.length_cons]
    omega
  · simp only [List.length_cons]
    omega

def finalState (bytes : List UInt8) : InputModeFinalState := finalFrom fresh bytes

end SlopDesk.Sanitize
