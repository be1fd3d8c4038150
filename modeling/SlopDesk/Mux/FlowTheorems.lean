/-
SlopDesk.Mux.FlowTheorems — credit is conserved, and a frame of at most
half the window can always be sent once the link is quiet.

§1 the frame caps leave room for the frame headers under half a window.
§2 one lemma per entry point of the two halves. §3 the invariant: the
four places credit can be add up to the window, so neither saturating
addition ever saturates, and the withheld credit is below the threshold.
-/
import SlopDesk.Mux.Flow

namespace SlopDesk.Mux

open SlopDesk.Base

/-! ## §1 The caps -/

theorem half_le {value n : Int} (h : 2 * n ≤ value) : n ≤ half value := by
  show n ≤ value / 2
  omega

theorem two_half_le (value : Int) : 2 * half value ≤ value := by
  show 2 * (value / 2) ≤ value
  omega

namespace MuxFlowControl

/-- An output frame at its cap, the 13 header bytes included, is within
half the window. -/
theorem output_frame_le_half (c : MuxFlowControl) :
    13 + c.maxOutputFramePayloadBytes ≤ half c.initialWindowBytes := by
  unfold maxOutputFramePayloadBytes
  omega

theorem maxOutputFramePayloadBytes_pos (c : MuxFlowControl) : 0 < c.maxOutputFramePayloadBytes := by
  have hwindow := c.initialWindowBytes_bounds
  have hmerge := c.hostMergeCapBytes_bounds
  have hhalf : 8 * 1024 ≤ half c.initialWindowBytes := half_le (by omega)
  unfold maxOutputFramePayloadBytes
  omega

end MuxFlowControl

/-! ## §2 One entry point at a time -/

theorem clampNonneg_of_nonneg {value : Int} (h : 0 ≤ value) : clampNonneg value = value := by
  unfold clampNonneg
  split <;> omega

namespace FlowCreditPolicy

variable (p : FlowCreditPolicy)

theorem consume_of_le {bytes : Nat} (h : (bytes : Int) ≤ p.remaining) :
    ∃ p', p.consume bytes = (.allowed (p.remaining - bytes), p') ∧
      p'.remaining = p.remaining - bytes := by
  have hclamp : clampNonneg (bytes : Int) = bytes := clampNonneg_of_nonneg (by omega)
  unfold consume
  rw [dif_neg (by omega)]
  simp only [hclamp]
  exact ⟨_, rfl, rfl⟩

theorem consume_of_lt {bytes : Nat} (h : p.remaining < bytes) :
    p.consume bytes = (.insufficient p.remaining, p) := by
  have hclamp : clampNonneg (bytes : Int) = bytes := clampNonneg_of_nonneg (by omega)
  unfold consume
  rw [dif_pos (by omega)]

theorem adjust_remaining {grant : Int} (h : 0 ≤ grant)
    (hfits : p.remaining + grant ≤ i64Max) : (p.adjust grant).remaining = p.remaining + grant := by
  unfold adjust
  split
  · omega
  · exact saturatingAdd_of_le p.remaining_nonneg h hfits

end FlowCreditPolicy

namespace ReceiveWindowAccountant

theorem threshold_pos (a : ReceiveWindowAccountant) : 0 < a.threshold := by
  unfold threshold
  split
  · decide
  · split <;> omega

/-- A frame of at most half a positive window leaves room for all the
credit a receiver may be withholding. -/
theorem threshold_le {a : ReceiveWindowAccountant} (h : 0 < a.initialWindow) {n : Int}
    (hn : 2 * n ≤ a.initialWindow) : n + a.threshold ≤ a.initialWindow + 1 := by
  have htwo := two_half_le a.initialWindow
  unfold threshold
  split <;> omega

/-- Credit consumed is either pending or granted, and what stays pending is
below the threshold. -/
theorem consume_spec {a : ReceiveWindowAccountant} (h : 0 < a.initialWindow) {bytes : Nat}
    (hfits : a.pendingCredit + bytes ≤ i64Max) : (a.consume bytes).2.initialWindow = a.initialWindow ∧
    (a.consume bytes).2.pendingCredit + (a.consume bytes).1.toList.sum = a.pendingCredit + bytes ∧
    (a.consume bytes).2.pendingCredit < (a.consume bytes).2.threshold ∧
    ∀ grant ∈ (a.consume bytes).1.toList, 0 ≤ grant := by
  have hclamp : clampNonneg (bytes : Int) = bytes := clampNonneg_of_nonneg (by omega)
  have hsum : saturatingAdd a.pendingCredit (clampNonneg bytes) = a.pendingCredit + bytes := by
    rw [hclamp]
    exact saturatingAdd_of_le a.pendingCredit_nonneg (by omega) hfits
  have hpos := a.threshold_pos
  unfold consume
  rw [if_neg (by omega)]
  dsimp only
  split
  case isTrue hlt =>
    refine ⟨rfl, ?_, hlt, ?_⟩
    · simpa using hsum
    · simp
  case isFalse =>
    refine ⟨rfl, ?_, hpos, ?_⟩
    · simpa using hsum
    · grind

end ReceiveWindowAccountant

/-! ## §3 Conservation -/

namespace CreditLink

/-- What every reachable link keeps, for a window `w`. -/
structure Inv (w : Int) (s : CreditLink) : Prop where
  conserved : s.policy.remaining + s.inFlight + s.ungranted + s.grantsInFlight = w
  window : s.accountant.initialWindow = w
  withheld : s.accountant.pendingCredit < s.accountant.threshold
  grants_nonneg : ∀ grant ∈ s.grants, 0 ≤ grant

theorem sum_nonneg {l : List Int} (h : ∀ x ∈ l, 0 ≤ x) : 0 ≤ l.sum := by
  induction l with
  | nil => exact Int.le_refl 0
  | cons x l ih =>
    have hx := h x (List.mem_cons_self ..)
    have hl := ih fun y hy => h y (List.mem_cons_of_mem x hy)
    simp only [List.sum_cons]
    omega

theorem inv_start {w : Int} (h : 0 < w) : Inv w (start w) := by
  have hclamp : clampNonneg w = w := clampNonneg_of_nonneg (by omega)
  refine ⟨?_, hclamp, ReceiveWindowAccountant.threshold_pos _, by simp [start]⟩
  simp [start, FlowCreditPolicy.new, ReceiveWindowAccountant.new, inFlight, ungranted,
    grantsInFlight, hclamp]

theorem step_cases (s : CreditLink) (act : LinkAct) : s.step act = s ∨
    (∃ (bytes : Nat) (policy : FlowCreditPolicy), (bytes : Int) ≤ s.policy.remaining ∧
      policy.remaining = s.policy.remaining - bytes ∧
      s.step act = { s with policy, data := s.data ++ [bytes] }) ∨
    (∃ bytes rest, s.data = bytes :: rest ∧
      s.step act = { s with data := rest, held := s.held + bytes }) ∨
    (∃ bytes, bytes ≤ s.held ∧ s.step act = { s with
      accountant := (s.accountant.consume bytes).2
      held := s.held - bytes
      grants := s.grants ++ (s.accountant.consume bytes).1.toList }) ∨
    ∃ grant rest, s.grants = grant :: rest ∧
      s.step act = { s with policy := s.policy.adjust grant, grants := rest } := by
  cases act with
  | send bytes =>
    by_cases hfits : (bytes : Int) ≤ s.policy.remaining
    case pos =>
      obtain ⟨policy, hallowed, hleft⟩ := s.policy.consume_of_le hfits
      refine .inr (.inl ⟨bytes, policy, hfits, hleft, ?_⟩)
      simp only [CreditLink.step, hallowed]
    case neg =>
      have hrefused := s.policy.consume_of_lt (Int.not_le.mp hfits)
      left
      simp only [CreditLink.step, hrefused]
  | deliver =>
    cases hdata : s.data with
    | nil =>
      left
      simp only [CreditLink.step, hdata]
    | cons bytes rest =>
      simp [CreditLink.step, hdata]
  | consume bytes =>
    by_cases hheld : bytes ≤ s.held
    case pos =>
      refine .inr (.inr (.inr (.inl ⟨bytes, hheld, ?_⟩)))
      simp only [CreditLink.step, if_pos hheld]
    case neg =>
      left
      simp only [CreditLink.step, if_neg hheld]
  | deliverGrant =>
    cases hqueue : s.grants with
    | nil =>
      left
      simp only [CreditLink.step, hqueue]
    | cons grant rest =>
      simp [CreditLink.step, hqueue]

theorem Inv.step {w : Int} {s : CreditLink} (hw : 0 < w) (hmax : w ≤ i64Max) (h : Inv w s)
    (act : LinkAct) : Inv w (s.step act) := by
  obtain ⟨hsum, hwindow, hwithheld, hgrants⟩ := id h
  have hremaining := s.policy.remaining_nonneg
  have hpending := s.accountant.pendingCredit_nonneg
  have hflying := sum_nonneg hgrants
  simp only [inFlight, ungranted, grantsInFlight] at hsum
  rcases step_cases s act with hstep | ⟨bytes, policy, _, hleft, hstep⟩ |
    ⟨bytes, rest, hdata, hstep⟩ | ⟨bytes, hheld, hstep⟩ | ⟨grant, rest, hqueue, hstep⟩
  · rwa [hstep]
  · rw [hstep]
    refine ⟨?_, hwindow, hwithheld, hgrants⟩
    simp only [inFlight, ungranted, grantsInFlight, hleft, List.sum_append, List.sum_singleton]
    omega
  · rw [hstep]
    refine ⟨?_, hwindow, hwithheld, hgrants⟩
    rw [hdata, List.sum_cons] at hsum
    simp only [inFlight, ungranted, grantsInFlight]
    omega
  · have hopen : 0 < s.accountant.initialWindow := by omega
    -- all the credit there is, is the window: the pending part cannot overflow
    have hfits : s.accountant.pendingCredit + bytes ≤ i64Max := by omega
    obtain ⟨hsame, htotal, hbelow, hnew⟩ := ReceiveWindowAccountant.consume_spec hopen hfits
    rw [hstep]
    refine ⟨?_, hsame.trans hwindow, hbelow, ?_⟩
    · simp only [inFlight, ungranted, grantsInFlight, List.sum_append]
      omega
    · grind
  · have hpos := hgrants grant (by rw [hqueue]; exact List.mem_cons_self ..)
    have hrest : ∀ g ∈ rest, 0 ≤ g := by
      grind
    have hrest_sum := sum_nonneg hrest
    rw [hqueue, List.sum_cons] at hsum
    have hcredit := s.policy.adjust_remaining hpos (by omega)
    rw [hstep]
    refine ⟨?_, hwindow, hwithheld, hrest⟩
    simp only [inFlight, ungranted, grantsInFlight, hcredit]
    omega

/-- Over every interleaving of sends, deliveries, consumptions and grant
deliveries the four places credit can be add up to the window; and in
every quiet state a frame of at most half the window is allowed. -/
theorem credit_conserved (w : Int64) (hw : 0 < w.toInt) (acts : List LinkAct) :
    let s := run step (start w.toInt) acts
    s.policy.remaining + s.inFlight + s.ungranted + s.grantsInFlight = w.toInt ∧
    (s.Quiescent → ∀ bytes : Nat, 2 * (bytes : Int) ≤ w.toInt →
      (s.policy.consume bytes).1 = .allowed (s.policy.remaining - bytes)) := by
  intro s
  have hmax : w.toInt ≤ i64Max := by
    have hlt := w.toInt_lt
    unfold i64Max
    omega
  have hinv : Inv w.toInt s :=
    run_invariant (Inv w.toInt) (fun _ act h => Inv.step hw hmax h act) (inv_start hw) acts
  refine ⟨hinv.conserved, ?_⟩
  intro hquiet bytes hbytes
  obtain ⟨hdata, hheld, hgrants⟩ := hquiet
  have hsum := hinv.conserved
  have hroom := ReceiveWindowAccountant.threshold_le (a := s.accountant) (n := bytes)
    (by rw [hinv.window]; exact hw) (by rw [hinv.window]; exact hbytes)
  have hwithheld := hinv.withheld
  simp only [inFlight, ungranted, grantsInFlight, hdata, hheld, hgrants, List.sum_nil] at hsum
  rw [hinv.window] at hroom
  have hcredit : (bytes : Int) ≤ s.policy.remaining := by omega
  obtain ⟨_, hallowed, _⟩ := s.policy.consume_of_le hcredit
  rw [hallowed]

theorem credit_conserved_small :
    let s := run step (start (5 : Int64).toInt)
      [.send 4, .deliver, .consume 1, .consume 1, .consume 2, .deliverGrant, .deliverGrant]
    0 < (5 : Int64).toInt ∧ s.Quiescent ∧ s.policy.remaining = 5 ∧
      (s.policy.consume 2).1 = .allowed 3 :=
  ⟨by decide, ⟨rfl, rfl, rfl⟩, rfl,
    (credit_conserved 5 (by decide)
      [.send 4, .deliver, .consume 1, .consume 1, .consume 2, .deliverGrant, .deliverGrant]).2
      ⟨rfl, rfl, rfl⟩ 2 (by decide)⟩

end CreditLink

end SlopDesk.Mux
