/-
SlopDesk.Mux.Flow — per-channel credit flow control
(`slopdesk-wire/src/mux/flow.rs`): the sender's window, the receiver's
replenish decision, and the caps both are sized from.

Amounts are `Int`, as the source's are `i64` so that a negative one can
be clamped; the two additions that could leave the type saturate, as
there. That a window and a pending credit are never negative is a field
of their structures.
-/
import Mathlib.Algebra.Order.Ring.Int
import SlopDesk.Base.Runs

namespace SlopDesk.Mux

/-- `i64::MAX`. -/
def i64Max : Int := 2 ^ 63 - 1

def saturatingAdd (a b : Int) : Int := max (-2 ^ 63) (min i64Max (a + b))

/-- The non-negative clamp every entry point makes. -/
def clampNonneg (value : Int) : Int := if value > 0 then value else 0

theorem clampNonneg_nonneg (value : Int) : 0 ≤ clampNonneg value := by
  unfold clampNonneg
  split <;> omega

theorem saturatingAdd_nonneg {a b : Int} (ha : 0 ≤ a) (hb : 0 ≤ b) : 0 ≤ saturatingAdd a b := by
  unfold saturatingAdd i64Max
  omega

theorem saturatingAdd_of_le {a b : Int} (ha : 0 ≤ a) (hb : 0 ≤ b) (h : a + b ≤ i64Max) :
    saturatingAdd a b = a + b := by
  unfold saturatingAdd
  omega

/-- `half`: rounds down. -/
def half (value : Int) : Int := value.ediv 2

/-! ## The constants -/

/-- `env_int`, after the variable was read and parsed: a value outside the
bounds, or none, falls back. -/
def envInt (parsed : Option Int) (fallback lo hi : Int) : Int :=
  match parsed with
  | some value => if lo ≤ value ∧ value ≤ hi then value else fallback
  | none => fallback

theorem envInt_bounds {parsed : Option Int} {fallback lo hi : Int} (h : lo ≤ fallback ∧ fallback ≤ hi) :
    lo ≤ envInt parsed fallback lo hi ∧ envInt parsed fallback lo hi ≤ hi := by
  unfold envInt
  cases parsed with
  | none => exact h
  | some value =>
    grind

/-- `MuxFlowControl`: what the two variables its frame caps depend on parse
to, `SLOPDESK_MUX_WINDOW` and `SLOPDESK_MUX_MERGE_CAP`. -/
structure MuxFlowControl where
  muxWindow : Option Int
  muxMergeCap : Option Int
  deriving DecidableEq, Repr

namespace MuxFlowControl

def initialWindowBytes (c : MuxFlowControl) : Int :=
  envInt c.muxWindow (64 * 1024) (16 * 1024) (16 * 1024 * 1024)

def maxDataMessagePayloadBytes (c : MuxFlowControl) : Int :=
  min (16 * 1024) (half c.initialWindowBytes - 16)

def hostMergeCapBytes (c : MuxFlowControl) : Int :=
  envInt c.muxMergeCap (32 * 1024) (4 * 1024) (128 * 1024)

def maxOutputFramePayloadBytes (c : MuxFlowControl) : Int :=
  min c.hostMergeCapBytes (half c.initialWindowBytes - 16)

theorem initialWindowBytes_bounds (c : MuxFlowControl) :
    16 * 1024 ≤ c.initialWindowBytes ∧ c.initialWindowBytes ≤ 16 * 1024 * 1024 :=
  envInt_bounds (by decide)

theorem hostMergeCapBytes_bounds (c : MuxFlowControl) :
    4 * 1024 ≤ c.hostMergeCapBytes ∧ c.hostMergeCapBytes ≤ 128 * 1024 :=
  envInt_bounds (by decide)

end MuxFlowControl

/-! ## The sender's half -/

inductive ConsumeResult where
  | allowed (left : Int)
  | insufficient (sendable : Int)
  deriving DecidableEq, Repr

structure FlowCreditPolicy where
  initialWindow : Int
  remaining : Int
  initialWindow_nonneg : 0 ≤ initialWindow
  remaining_nonneg : 0 ≤ remaining
  deriving DecidableEq, Repr

namespace FlowCreditPolicy

def new (initialWindow : Int) : FlowCreditPolicy :=
  ⟨clampNonneg initialWindow, clampNonneg initialWindow, clampNonneg_nonneg _, clampNonneg_nonneg _⟩

def restored (initialWindow remaining : Int) : FlowCreditPolicy :=
  ⟨clampNonneg initialWindow, clampNonneg remaining, clampNonneg_nonneg _, clampNonneg_nonneg _⟩

/-- `consume`: all or nothing. -/
def consume (p : FlowCreditPolicy) (bytes : Int) : ConsumeResult × FlowCreditPolicy :=
  if h : clampNonneg bytes > p.remaining then (.insufficient p.remaining, p)
  else
    (.allowed (p.remaining - clampNonneg bytes),
      { p with
        remaining := p.remaining - clampNonneg bytes
        remaining_nonneg := by omega })

/-- `adjust`: a grant that is not positive is ignored. -/
def adjust (p : FlowCreditPolicy) (bytesToAdd : Int) : FlowCreditPolicy :=
  if h : bytesToAdd ≤ 0 then p
  else
    { p with
      remaining := saturatingAdd p.remaining bytesToAdd
      remaining_nonneg := saturatingAdd_nonneg p.remaining_nonneg (by omega) }

def isBlocked (p : FlowCreditPolicy) : Bool := p.remaining ≤ 0

end FlowCreditPolicy

/-! ## The receiver's half -/

structure ReceiveWindowAccountant where
  initialWindow : Int
  pendingCredit : Int
  initialWindow_nonneg : 0 ≤ initialWindow
  pendingCredit_nonneg : 0 ≤ pendingCredit
  deriving DecidableEq, Repr

namespace ReceiveWindowAccountant

def new (initialWindow : Int) : ReceiveWindowAccountant :=
  ⟨clampNonneg initialWindow, 0, clampNonneg_nonneg _, Int.le_refl 0⟩

def restored (initialWindow pendingCredit : Int) : ReceiveWindowAccountant :=
  ⟨clampNonneg initialWindow, clampNonneg pendingCredit, clampNonneg_nonneg _,
    clampNonneg_nonneg _⟩

/-- `threshold`: at least 1 for a positive window, never for another. -/
def threshold (a : ReceiveWindowAccountant) : Int :=
  if a.initialWindow ≤ 0 then i64Max
  else if half a.initialWindow > 1 then half a.initialWindow
  else 1

/-- `consume`: the whole accumulated credit at each crossing. -/
def consume (a : ReceiveWindowAccountant) (bytes : Int) :
    Option Int × ReceiveWindowAccountant :=
  if a.initialWindow ≤ 0 then (none, a)
  else
    let pending := saturatingAdd a.pendingCredit (clampNonneg bytes)
    have hpending := saturatingAdd_nonneg a.pendingCredit_nonneg (clampNonneg_nonneg bytes)
    if pending < a.threshold then
      (none, { a with pendingCredit := pending, pendingCredit_nonneg := hpending })
    else (some pending, { a with pendingCredit := 0, pendingCredit_nonneg := Int.le_refl 0 })

end ReceiveWindowAccountant

/-! ## One direction of one channel -/

/-- A sender's policy and a receiver's accountant, joined by two FIFO
channels: chunk lengths one way, grants the other. `held` is what was
delivered and not yet consumed. -/
structure CreditLink where
  policy : FlowCreditPolicy
  accountant : ReceiveWindowAccountant
  data : List Nat
  held : Nat
  grants : List Int

/-- What either end, or either channel, can do next. -/
inductive LinkAct where
  | send (bytes : Nat)
  | deliver
  | consume (bytes : Nat)
  | deliverGrant
  deriving DecidableEq, Repr

namespace CreditLink

/-- Both ends open with the window `w`; nothing is in flight. -/
def start (w : Int) : CreditLink := ⟨.new w, .new w, [], 0, []⟩

/-- One act. A send the policy refuses puts nothing in flight, and an act
with nothing to act on leaves the link as it is. -/
def step (s : CreditLink) : LinkAct → CreditLink
  | .send bytes =>
    match s.policy.consume bytes with
    | (.allowed _, policy) => { s with policy, data := s.data ++ [bytes] }
    | (.insufficient _, policy) => { s with policy }
  | .deliver =>
    match s.data with
    | [] => s
    | bytes :: rest => { s with data := rest, held := s.held + bytes }
  | .consume bytes =>
    if bytes ≤ s.held then
      let r := s.accountant.consume bytes
      { s with accountant := r.2, held := s.held - bytes, grants := s.grants ++ r.1.toList }
    else s
  | .deliverGrant =>
    match s.grants with
    | [] => s
    | grant :: rest => { s with policy := s.policy.adjust grant, grants := rest }

/-- Bytes sent and not yet delivered. -/
def inFlight (s : CreditLink) : Int := s.data.sum

/-- Bytes the receiver has been delivered and has not granted back. -/
def ungranted (s : CreditLink) : Int := s.held + s.accountant.pendingCredit

/-- Credit granted and not yet delivered. -/
def grantsInFlight (s : CreditLink) : Int := s.grants.sum

/-- Everything sent was delivered and consumed, and every grant delivered. -/
def Quiescent (s : CreditLink) : Prop := s.data = [] ∧ s.held = 0 ∧ s.grants = []

end CreditLink

end SlopDesk.Mux
