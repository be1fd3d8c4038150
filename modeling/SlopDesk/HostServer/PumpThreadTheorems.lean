/-
SlopDesk.HostServer.PumpThreadTheorems — when a subscriber's pump waits.

`parks_iff_nothing_held_back`: a `drain` that returns `true` leaves the
thread waiting for the next input exactly when it did not hold an offer back
(§1). One that does leaves the offer in the inbox, where `has_work` still
counts it, and the thread drains again at once and for ever. §2 follows the
last turn of such a drain, §3 the way from an ack or a resubscribe to the
turn that applies it, §4 the wait itself.
-/
import SlopDesk.HostServer.PumpThread

namespace SlopDesk.HostServer

open SlopDesk.Base
open SlopDesk.Document
open SlopDesk.Wire

variable {l : SyncLadder}

/-! ## §1 Held back -/

/-- A frame is out and the ack waiting to be applied does not clear it:
there is none, or it is for another state still retained. -/
def StaysOut (l : SyncLadder) : Prop :=
  ∃ n, l.outstanding = some n ∧ ∀ m, l.pendingAck = some m → m ≠ n ∧ (l.window.find m).isSome

/-- The inbox has an offer the ladder will hold: neither a resubscribe nor
an ack waits in it that clears the frame outstanding. -/
def Inner.HeldBack (i : Inner) : Prop :=
  i.pendingState.isSome ∧ i.pendingSubscribe = none ∧ StaysOut i.retention.ladder

theorem outstanding_applyPendingAck (l : SyncLadder) :
    l.applyPendingAck.1.outstanding.isSome ↔ StaysOut l := by
  unfold SyncLadder.applyPendingAck StaysOut
  cases hack : l.pendingAck with
  | none =>
    simp [Option.isSome_iff_exists]
  | some m =>
    dsimp only
    cases hfind : l.window.find m with
    | none => simp [hfind]
    | some retained =>
      dsimp only
      split
      case isTrue hanswers =>
        have hanswers : l.outstanding = some m := hanswers
        simp [hanswers]
      case isFalse hanswers =>
        rw [Option.isSome_iff_exists]
        refine exists_congr fun n => ⟨fun h => ⟨h, ?_⟩, fun h => h.1⟩
        rintro _ ⟨⟩
        exact ⟨fun heq => hanswers (heq ▸ h), by rw [hfind]; rfl⟩

theorem pendingAck_applyPendingAck (l : SyncLadder) : l.applyPendingAck.1.pendingAck = none := by
  unfold SyncLadder.applyPendingAck
  cases hack : l.pendingAck with
  | none => exact hack
  | some m =>
    dsimp only
    cases l.window.find m with
    | none => rfl
    | some retained =>
      dsimp only
      split <;> rfl

theorem outstanding_resubscribe (l : SyncLadder) (knownEpoch : RawUuid) (knownStateNum : Int)
    (contributesSize followsFocus : Bool) :
    (l.resubscribe knownEpoch knownStateNum contributesSize followsFocus).1.outstanding = none := by
  unfold SyncLadder.resubscribe
  dsimp only
  cases SyncLadder.claimed _ knownEpoch knownStateNum <;> rfl

theorem pendingAck_resubscribe (l : SyncLadder) (knownEpoch : RawUuid) (knownStateNum : Int)
    (contributesSize followsFocus : Bool) :
    (l.resubscribe knownEpoch knownStateNum contributesSize followsFocus).1.pendingAck
      = l.pendingAck := by
  unfold SyncLadder.resubscribe
  dsimp only
  cases SyncLadder.claimed _ knownEpoch knownStateNum <;> rfl

theorem staysOut_iff (hack : l.pendingAck = none) : StaysOut l ↔ l.outstanding.isSome := by
  rw [StaysOut, Option.isSome_iff_exists]
  refine exists_congr fun n => ⟨fun h => h.1, fun h => ⟨h, ?_⟩⟩
  rw [hack]
  nofun

theorem not_staysOut (h : l.outstanding = none) : ¬ StaysOut l := by
  rintro ⟨n, hn, -⟩
  rw [h] at hn
  contradiction

/-! ## §2 The last turn of a drain -/

/-- An inbox that has been taken from: only an offer may be in it. -/
structure Inner.Taken (i : Inner) : Prop where
  roster : i.pendingRoster = none
  subscribe : i.pendingSubscribe = none
  results : i.pendingResults = []

theorem Inner.Taken.hasWork {i : Inner} (h : i.Taken) : i.hasWork = i.pendingState.isSome := by
  simp [Inner.hasWork, h.roster, h.subscribe, h.results]

theorem Inner.Taken.takeInbox (i : Inner) : i.takeInbox.2.Taken := ⟨rfl, rfl, rfl⟩

namespace WorkspaceSubscriber

/-- What is known inside a drain no input interrupts, where `held` says
whether it holds an offer back. -/
def Turn (held : Prop) (s : WorkspaceSubscriber) : Prop :=
  match s.pump with
  | .parked => s.inner.Taken ∧ (s.inner.pendingState.isSome ↔ held) ∧ (held → s.inner.HeldBack)
  | .draining => s.inner.HeldBack ↔ held
  | .taken inbox => s.inner.Taken ∧ inbox.offer = s.inner.pendingState ∧
      (s.inner.pendingState.isSome ∧ inbox.subscribe = none ∧ StaysOut s.inner.retention.ladder
        ↔ held)
  | .resubscribed inbox => s.inner.Taken ∧ inbox.offer = s.inner.pendingState ∧
      (s.inner.pendingState.isSome ∧ StaysOut s.inner.retention.ladder ↔ held)
  | .acked inbox | .sending _ inbox _ => s.inner.Taken ∧ inbox.offer = s.inner.pendingState ∧
      s.inner.retention.ladder.pendingAck = none ∧
      (s.inner.pendingState.isSome ∧ s.inner.retention.ladder.outstanding.isSome ↔ held)
  | .planned _ _ => s.inner.Taken ∧ ¬ held
  | .claimed _ _ | .shipped _ => s.inner.Taken ∧ s.inner.pendingState = none ∧ ¬ held

/-- A thread at work on a drain no input interrupts, or gone with its
subscriber. -/
def Works (held : Prop) (s : WorkspaceSubscriber) : Prop :=
  (s.closed = false ∧ s.pumping ∧ s.Turn held) ∨ (s.closed ∧ s.pumping = false)

section
variable {held : Prop} {s : WorkspaceSubscriber}
variable {ops : List SubscriberOp}

theorem closed_close (s : WorkspaceSubscriber) : s.close.closed := by
  unfold close
  split
  case isTrue h => exact h
  case isFalse => rfl

theorem works_send {sent : Bool} {next : Pump} (hopen : s.closed = false) (hpumping : s.pumping)
    (hnext : Turn held { s with pump := next }) : (s.send sent next).Works held := by
  cases sent with
  | true => exact .inl ⟨hopen, hpumping, hnext⟩
  | false => exact .inr ⟨s.closed_close, rfl⟩

theorem turn_finish (htaken : s.inner.Taken) (hack : s.inner.retention.ladder.pendingAck = none)
    (hheld : s.inner.pendingState.isSome ∧ s.inner.retention.ladder.outstanding.isSome ↔ held)
    (hstays : s.inner.pendingState.isSome → s.inner.retention.ladder.outstanding.isSome)
    (didSend : Bool) : (s.finish didSend).Turn held := by
  have hback : s.inner.HeldBack ↔ held := by
    rw [← hheld, Inner.HeldBack, staysOut_iff hack]
    exact and_congr_right fun _ => and_iff_right htaken.subscribe
  cases didSend with
  | true => exact hback
  | false =>
    exact ⟨htaken, ⟨fun h => hheld.mp ⟨h, hstays h⟩, fun h => (hheld.mpr h).1⟩, hback.mpr⟩

theorem works_plan (hopen : s.closed = false) (hpumping : s.pumping) (htaken : s.inner.Taken)
    (hack : s.inner.retention.ladder.pendingAck = none)
    (hheld : s.inner.pendingState.isSome ∧ s.inner.retention.ladder.outstanding.isSome ↔ held)
    (offer : Offer) (didSend : Bool) : (s.plan offer didSend).Works held := by
  unfold plan
  by_cases hout : s.inner.retention.ladder.outstanding.isSome
  case pos =>
    rw [(Retention.plan_hold hout offer.epoch).1]
    exact .inl ⟨hopen, hpumping, turn_finish htaken hack hheld (fun _ => hout) didSend⟩
  case neg =>
    have hne := Retention.plan_ne_hold hout offer.epoch
    have hfree : ¬ held := fun h => hout (hheld.mpr h).2
    cases hplan : s.inner.retention.plan offer.epoch with
    | mk planned retention =>
      rw [hplan] at hne
      have hkept : Inner.Taken { s.inner with retention } := ⟨htaken.1, htaken.2, htaken.3⟩
      cases planned with
      | hold => exact absurd rfl hne
      | snapshot resetFirst => exact .inl ⟨hopen, hpumping, hkept, hfree⟩
      | diff baseStateNum base => exact .inl ⟨hopen, hpumping, hkept, hfree⟩

theorem works_sendDocument (hopen : s.closed = false) (hpumping : s.pumping)
    (htaken : s.inner.Taken) (hnone : s.inner.pendingState = none) (hfree : ¬ held) (offer : Offer)
    (sent : Bool) (planned : Planned HostWorkspaceState) :
    (s.sendDocument offer sent planned).Works held := by
  have hdraining : Turn held { s with pump := .draining } := by
    refine ⟨fun h => ?_, fun h => absurd h hfree⟩
    have hsome : s.inner.pendingState.isSome := h.1
    rw [hnone] at hsome
    contradiction
  cases planned with
  | hold => exact .inl ⟨hopen, hpumping, hdraining⟩
  | snapshot resetFirst =>
    cases resetFirst <;> exact works_send hopen hpumping ⟨htaken, hnone, hfree⟩
  | diff baseStateNum base =>
    simp only [sendDocument]
    split
    case isTrue => exact .inl ⟨hopen, hpumping, hdraining⟩
    case isFalse => exact works_send hopen hpumping ⟨htaken, hnone, hfree⟩

theorem works_sendInbox (hopen : s.closed = false) (hpumping : s.pumping) (htaken : s.inner.Taken)
    {inbox : Inbox} (hoffer : inbox.offer = s.inner.pendingState)
    (hack : s.inner.retention.ladder.pendingAck = none)
    (hheld : s.inner.pendingState.isSome ∧ s.inner.retention.ladder.outstanding.isSome ↔ held)
    (loose : RawUuid) (didSend sent : Bool) : (s.sendInbox loose inbox didSend sent).Works held := by
  unfold sendInbox
  cases inbox.results with
  | cons result results => exact works_send hopen hpumping ⟨htaken, hoffer, hack, hheld⟩
  | nil =>
    cases inbox.roster with
    | some roster => exact works_send hopen hpumping ⟨htaken, hoffer, hack, hheld⟩
    | none =>
      cases hown : inbox.offer with
      | some offer => exact works_plan hopen hpumping htaken hack hheld offer didSend
      | none =>
        refine .inl ⟨hopen, hpumping, turn_finish htaken hack hheld (fun h => ?_) didSend⟩
        rw [← hoffer, hown] at h
        contradiction

theorem works_advance (hopen : s.closed = false) (hpumping : s.pumping) (hturn : s.Turn held)
    (sent : Bool) : (s.advance sent).Works held := by
  obtain ⟨inner, closed, pumping, waiting, pump⟩ := s
  obtain rfl : closed = false := hopen
  cases pump with
  | parked =>
    obtain ⟨htaken, hsome, hback⟩ := hturn
    show Works held (if inner.hasWork then _ else _)
    split
    case isTrue hwork =>
      rw [htaken.hasWork] at hwork
      have hheld := hsome.mp hwork
      exact .inl ⟨rfl, hpumping, iff_of_true (hback hheld) hheld⟩
    case isFalse => exact .inl ⟨rfl, hpumping, htaken, hsome, hback⟩
  | draining =>
    exact .inl ⟨rfl, hpumping, .takeInbox inner, rfl, hturn⟩
  | taken inbox =>
    obtain ⟨htaken, hoffer, hheld⟩ := hturn
    refine .inl ⟨rfl, hpumping, ?_⟩
    cases hsub : inbox.subscribe with
    | none =>
      simp only [advance, hsub]
      refine ⟨htaken, hoffer, ?_⟩
      rw [← hheld]
      exact and_congr_right fun _ => (and_iff_right hsub).symm
    | some request =>
      simp only [advance, hsub]
      refine ⟨⟨htaken.1, htaken.2, htaken.3⟩, hoffer, ?_⟩
      rw [← hheld]
      refine iff_of_false (fun h => not_staysOut (outstanding_resubscribe ..) h.2) fun h => ?_
      simp [hsub] at h
  | resubscribed inbox =>
    obtain ⟨htaken, hoffer, hheld⟩ := hturn
    refine .inl ⟨rfl, hpumping, ⟨htaken.1, htaken.2, htaken.3⟩, hoffer,
      pendingAck_applyPendingAck _, ?_⟩
    rw [← hheld]
    exact and_congr_right fun _ => outstanding_applyPendingAck _
  | acked inbox => exact .inl ⟨rfl, hpumping, hturn⟩
  | sending loose inbox didSend =>
    obtain ⟨htaken, hoffer, hack, hheld⟩ := hturn
    exact works_sendInbox rfl hpumping htaken hoffer hack hheld loose didSend sent
  | planned offer planned =>
    exact .inl ⟨rfl, hpumping, ⟨hturn.1.1, hturn.1.2, hturn.1.3⟩, rfl, hturn.2⟩
  | claimed offer planned =>
    exact works_sendDocument rfl hpumping hturn.1 hturn.2.1 hturn.2.2 offer sent planned
  | shipped offer =>
    refine .inl ⟨rfl, hpumping, fun h => ?_, fun h => absurd h hturn.2.2⟩
    have hsome : inner.pendingState.isSome := h.1
    rw [show inner.pendingState = none from hturn.2.1] at hsome
    contradiction

theorem works_step {op : SubscriberOp} (hquiet : op.isInput = false) (h : s.Works held) :
    (s.step op).Works held := by
  cases op with
  | start =>
    show s.start.Works held
    have hstays : s.start = s := by
      refine if_pos ?_
      rcases h with ⟨_, hpumping, _⟩ | ⟨hclosed, _⟩ <;> simp [*]
    rwa [hstays]
  | wake =>
    rcases h with ⟨hopen, hpumping, hturn⟩ | hgone
    · exact .inl ⟨hopen, hpumping, hturn⟩
    · exact .inr hgone
  | pump sent =>
    show (s.pumpStep sent).Works held
    unfold pumpStep
    split
    case isFalse => exact h
    case isTrue hruns =>
      rcases h with ⟨hopen, hpumping, hturn⟩ | ⟨_, hgone⟩
      · exact works_advance hopen hpumping hturn sent
      · simp [hgone] at hruns
  | close | deliverState | deliverRoster | deliverResult | noteAck | noteResubscribe =>
    exact absurd hquiet (by simp [SubscriberOp.isInput])

theorem works_run (hquiet : ∀ op ∈ ops, op.isInput = false)
    (h : s.Works held) : (run step s ops).Works held :=
  (meets_of_forall hquiet s).invariant (Works held) (fun _ _ hop => works_step hop) h

/-- A thread that entered a closed subscriber's drain does not come back to
the head of `run`. -/
theorem closed_run (hclosed : s.closed) (hdrain : s.pump = .draining)
    (hquiet : ∀ op ∈ ops, op.isInput = false) (hpumping : (run step s ops).pumping) :
    (run step s ops).pump = .draining := by
  have hstep : ∀ (s : WorkspaceSubscriber) (op : SubscriberOp), op.isInput = false →
      (s.closed ∧ (s.pumping → s.pump = .draining)) →
      ((s.step op).closed ∧ ((s.step op).pumping → (s.step op).pump = .draining)) := by
    rintro s op hop ⟨hclosed, hat⟩
    cases op with
    | start =>
      show s.start.closed ∧ (s.start.pumping → s.start.pump = .draining)
      rw [show s.start = s from if_pos (by simp [hclosed])]
      exact ⟨hclosed, hat⟩
    | wake => exact ⟨hclosed, hat⟩
    | pump sent =>
      show (s.pumpStep sent).closed ∧ _
      by_cases hruns : s.pumping && !s.waiting
      · have hat := hat (Bool.and_eq_true_iff.mp hruns).1
        have hleave : s.pumpStep sent = s.leave := by
          rw [pumpStep, if_pos hruns, advance, hat]
          exact if_pos hclosed
        show (s.pumpStep sent).closed ∧ ((s.pumpStep sent).pumping → (s.pumpStep sent).pump = _)
        rw [hleave]
        exact ⟨hclosed, nofun⟩
      · rw [show s.step (.pump sent) = s from if_neg hruns, show s.pumpStep sent = s from if_neg hruns]
        exact ⟨hclosed, hat⟩
    | close | deliverState | deliverRoster | deliverResult | noteAck | noteResubscribe =>
      exact absurd hop (by simp [SubscriberOp.isInput])
  exact ((meets_of_forall hquiet s).invariant
    (fun s => s.closed ∧ (s.pumping → s.pump = .draining)) hstep ⟨hclosed, fun _ => hdrain⟩).2 hpumping

end

/-! ## §3 From an input to the turn that applies it -/

end WorkspaceSubscriber

/-- The frames an inbox sends ahead of its offer. -/
def Inbox.frames (i : Inbox) : Nat := i.results.length + i.roster.toList.length

namespace Pump

/-- The steps it takes at most, with a link that is up, until `drain` looks
at the inbox again. -/
def lag : Pump → Nat
  | .draining => 0
  | .parked | .shipped _ => 1
  | .claimed _ (.snapshot true) => 3
  | .claimed _ _ => 2
  | .planned _ _ => 4
  | .sending _ inbox _ => inbox.frames + 5
  | .acked inbox => inbox.frames + 6
  | .resubscribed inbox => inbox.frames + 7
  | .taken inbox => inbox.frames + 8

/-- The same, until `apply_pending_ack`. -/
def ackLag : Pump → Nat
  | .resubscribed _ => 0
  | .taken _ => 1
  | p => p.lag + 2

theorem ackLag_le (p : Pump) : p.ackLag ≤ p.lag + 2 := by
  cases p <;> simp [ackLag, lag]

/-- Where the offer peeked or about to be peeked is still in the inbox. -/
def peeks : Pump → Bool
  | .parked | .acked _ | .sending _ _ _ => true
  | _ => false

end Pump

theorem pendingAck_plan (r : Retention HostWorkspaceState) (epoch : RawUuid) :
    (r.plan epoch).2.ladder.pendingAck = r.ladder.pendingAck := by
  by_cases hout : r.ladder.outstanding.isSome
  case pos => rw [(Retention.plan_hold hout epoch).1]
  case neg =>
    rw [(Retention.plan_send hout epoch).1]
    unfold SyncLadder.enterEpoch
    split <;> rfl

namespace WorkspaceSubscriber

variable {s : WorkspaceSubscriber}
variable {op : SubscriberOp} {s' : WorkspaceSubscriber} {i : Inner} {ops : List SubscriberOp}

/-- One step of a thread whose link is up. -/
structure Moves (s s' : WorkspaceSubscriber) : Prop where
  closed : s'.closed = s.closed
  pumping : s'.pumping = s.pumping
  waiting : s'.waiting = s.waiting
  lag : s.pump ≠ .draining → s'.pump.lag < s.pump.lag
  subscribe : s.pump ≠ .draining → s'.inner.pendingSubscribe = s.inner.pendingSubscribe
  ack : (∀ inbox, s.pump ≠ .resubscribed inbox) →
    s'.inner.retention.ladder.pendingAck = s.inner.retention.ladder.pendingAck
  offer : s'.pump.peeks → s'.inner.pendingState = s.inner.pendingState
  peeks : s'.pump.peeks → (∀ inbox, s.pump ≠ .resubscribed inbox) → s.pump.peeks

theorem moves_finish (hsending : s.pump.peeks) (hlag : 1 < s.pump.lag)
    (didSend : Bool) : s.Moves (s.finish didSend) where
  closed := rfl
  pumping := rfl
  waiting := rfl
  lag _ := by cases didSend with
    | true => exact Nat.lt_of_succ_lt hlag
    | false => exact hlag
  subscribe _ := rfl
  ack _ := rfl
  offer _ := rfl
  peeks _ _ := hsending

theorem moves_sendInbox {loose : RawUuid} {inbox : Inbox} {didSend : Bool}
    (hpump : s.pump = .sending loose inbox didSend) : s.Moves (s.sendInbox loose inbox didSend true) := by
  have hpeeks : s.pump.peeks := by rw [hpump]; rfl
  have hlag : s.pump.lag = inbox.frames + 5 := by rw [hpump]; rfl
  obtain ⟨subscribe, roster, results, offer⟩ := inbox
  cases results with
  | cons result results =>
    refine ⟨rfl, rfl, rfl, fun _ => ?_, fun _ => rfl, fun _ => rfl, fun _ => rfl, fun _ _ => hpeeks⟩
    rw [hlag]
    simp [sendInbox, send, Pump.lag, Inbox.frames]
  | nil =>
    cases roster with
    | some roster =>
      refine ⟨rfl, rfl, rfl, fun _ => ?_, fun _ => rfl, fun _ => rfl, fun _ => rfl,
        fun _ _ => hpeeks⟩
      rw [hlag]
      simp [sendInbox, send, Pump.lag, Inbox.frames]
    | none =>
      cases offer with
      | none => exact moves_finish hpeeks (by omega) didSend
      | some offer =>
        show s.Moves (s.plan offer didSend)
        have hack := pendingAck_plan s.inner.retention offer.epoch
        unfold plan
        cases hplan : s.inner.retention.plan offer.epoch with
        | mk planned retention =>
          rw [hplan] at hack
          cases planned with
          | hold =>
            have hmoves := moves_finish (s := { s with inner := { s.inner with retention } }) hpeeks
              (show 1 < s.pump.lag by omega) didSend
            exact ⟨rfl, rfl, rfl, hmoves.lag, fun _ => rfl, fun _ => hack, fun _ => rfl,
              fun _ _ => hpeeks⟩
          | snapshot resetFirst =>
            refine ⟨rfl, rfl, rfl, fun _ => ?_, fun _ => rfl, fun _ => hack, nofun, nofun⟩
            show 4 < s.pump.lag
            omega
          | diff baseStateNum base =>
            refine ⟨rfl, rfl, rfl, fun _ => ?_, fun _ => rfl, fun _ => hack, nofun, nofun⟩
            show 4 < s.pump.lag
            omega

theorem moves_sendDocument {offer : Offer}
    {planned : Planned HostWorkspaceState} (hpump : s.pump = .claimed offer planned) :
    s.Moves (s.sendDocument offer true planned) := by
  have hlag : s.pump.lag = (Pump.claimed offer planned).lag := by rw [hpump]
  have hmoves (next : Pump) (hnext : next.lag < (Pump.claimed offer planned).lag)
      (hpeeks : next.peeks = false) : s.Moves { s with pump := next } :=
    ⟨rfl, rfl, rfl, fun _ => hlag ▸ hnext, fun _ => rfl, fun _ => rfl,
      fun h => absurd h (by simp [hpeeks]), fun h => absurd h (by simp [hpeeks])⟩
  cases planned with
  | hold => exact hmoves .draining (by simp [Pump.lag]) rfl
  | snapshot resetFirst =>
    cases resetFirst with
    | true => exact hmoves (.claimed offer (.snapshot false)) (by simp [Pump.lag]) rfl
    | false => exact hmoves (.shipped offer) (by simp [Pump.lag]) rfl
  | diff baseStateNum base =>
    simp only [sendDocument]
    split
    case isTrue => exact hmoves .draining (by simp [Pump.lag]) rfl
    case isFalse => exact hmoves (.shipped offer) (by simp [Pump.lag]) rfl

theorem moves_advance (hopen : s.closed = false)
    (hwork : s.pump = .parked → s.inner.hasWork) : s.Moves (s.advance true) := by
  obtain ⟨inner, closed, pumping, waiting, pump⟩ := s
  obtain rfl : closed = false := hopen
  cases pump with
  | parked =>
    have hdrains : advance ⟨inner, false, pumping, waiting, .parked⟩ true
        = ⟨inner, false, pumping, waiting, .draining⟩ := if_pos (hwork rfl)
    rw [hdrains]
    exact ⟨rfl, rfl, rfl, fun _ => Nat.one_pos, fun _ => rfl, fun _ => rfl, nofun, nofun⟩
  | draining => exact ⟨rfl, rfl, rfl, nofun, nofun, fun _ => rfl, nofun, nofun⟩
  | taken inbox =>
    have hack (request : WorkspaceSubscribe) :
        (inner.applyResubscribe request).retention.ladder.pendingAck
          = inner.retention.ladder.pendingAck := pendingAck_resubscribe ..
    obtain ⟨subscribe, roster, results, offer⟩ := inbox
    cases subscribe with
    | none =>
      exact ⟨rfl, rfl, rfl, fun _ => Nat.lt_succ_self _, fun _ => rfl, fun _ => rfl, nofun, nofun⟩
    | some request =>
      exact ⟨rfl, rfl, rfl, fun _ => Nat.lt_succ_self _, fun _ => rfl, fun _ => hack request, nofun,
        nofun⟩
  | resubscribed inbox =>
    exact ⟨rfl, rfl, rfl, fun _ => Nat.lt_succ_self _, fun _ => rfl,
      fun h => absurd rfl (h inbox), fun _ => rfl, fun _ h => absurd rfl (h inbox)⟩
  | acked inbox =>
    exact ⟨rfl, rfl, rfl, fun _ => Nat.lt_succ_self _, fun _ => rfl, fun _ => rfl, fun _ => rfl,
      fun _ _ => rfl⟩
  | sending loose inbox didSend => exact moves_sendInbox rfl
  | planned offer planned =>
    refine ⟨rfl, rfl, rfl, fun _ => ?_, fun _ => rfl, fun _ => rfl, nofun, nofun⟩
    show (Pump.claimed offer planned).lag < 4
    cases planned with
    | snapshot resetFirst => cases resetFirst <;> simp [Pump.lag]
    | _ => simp [Pump.lag]
  | claimed offer planned => exact moves_sendDocument rfl
  | shipped offer =>
    exact ⟨rfl, rfl, rfl, fun _ => Nat.one_pos, fun _ => rfl, fun _ => rfl, nofun, nofun⟩

/-- A thread that runs, of a subscriber that is open. -/
structure Runs (s : WorkspaceSubscriber) : Prop where
  isOpen : s.closed = false
  pumping : s.pumping
  awake : s.waiting = false

/-- The next step applies an ack of `stateNum`, or a later one. -/
def AppliesAck (stateNum : Int) (s : WorkspaceSubscriber) : Prop :=
  (∃ inbox, s.pump = .resubscribed inbox) ∧
    ∃ n, s.inner.retention.ladder.pendingAck = some n ∧ stateNum ≤ n

/-- The next step applies the resubscribe. -/
def AppliesResubscribe (request : WorkspaceSubscribe) (s : WorkspaceSubscriber) : Prop :=
  ∃ inbox, s.pump = .taken inbox ∧ inbox.subscribe = some request

/-- What may follow an input without ending the drain it wakes: anything but
`close` and a link that dies. -/
def staysUp : SubscriberOp → Bool
  | .close | .pump false => false
  | _ => true

theorem step_call (h : s.Runs) (hup : staysUp op) (hcall : op.isPump = false) :
    ∃ inner, s.step op = { s with inner } ∧
      (s.inner.pendingState.isSome → inner.pendingState.isSome) ∧
      ((∀ request, op ≠ .noteResubscribe request) →
        inner.pendingSubscribe = s.inner.pendingSubscribe) ∧
      ∀ n, s.inner.retention.ladder.pendingAck = some n →
        ∃ m, inner.retention.ladder.pendingAck = some m ∧ n ≤ m := by
  obtain ⟨hopen, hpumping, hawake⟩ := h
  have hdeliver (change : Inner → Inner) :
      s.deliver change = { s with inner := change s.inner } := by
    rw [deliver, if_neg (by simp [hopen]), ← hawake]
  have hsame (n : Int) (hn : s.inner.retention.ladder.pendingAck = some n) :
      ∃ m, s.inner.retention.ladder.pendingAck = some m ∧ n ≤ m := ⟨n, hn, Int.le_refl n⟩
  cases op with
  | start => exact ⟨s.inner, if_pos (by simp [hpumping]), id, fun _ => rfl, hsame⟩
  | close => exact absurd hup (by simp [staysUp])
  | deliverState offer => exact ⟨s.inner.deliverState offer, hdeliver (·.deliverState offer), fun _ => rfl, fun _ => rfl, hsame⟩
  | deliverRoster roster => exact ⟨s.inner.deliverRoster roster, hdeliver (·.deliverRoster roster), id, fun _ => rfl, hsame⟩
  | deliverResult result => exact ⟨s.inner.deliverResult result, hdeliver (·.deliverResult result), id, fun _ => rfl, hsame⟩
  | noteAck stateNum =>
    refine ⟨s.inner.noteAck stateNum, hdeliver (·.noteAck stateNum), id, fun _ => rfl, fun n hn => ?_⟩
    refine ⟨if n ≥ stateNum then n else stateNum, ?_, by split <;> omega⟩
    simp [Inner.noteAck, Retention.noteAck, SyncLadder.noteAck, hn]
  | noteResubscribe request =>
    exact ⟨s.inner.noteResubscribe request, hdeliver (·.noteResubscribe request), id,
      fun h => absurd rfl (h request), hsame⟩
  | wake => exact ⟨s.inner, by rw [step, ← hawake], id, fun _ => rfl, hsame⟩
  | pump sent => exact absurd hcall (by simp [SubscriberOp.isPump])

theorem step_pump (h : s.Runs) (sent : Bool) :
    s.step (.pump sent) = s.advance sent := if_pos (by simp [h.pumping, h.awake])

theorem Runs.moves (h : s.Runs) (hmoves : s.Moves s') : s'.Runs :=
  ⟨hmoves.closed.trans h.isOpen, hmoves.pumping.trans h.pumping, hmoves.waiting.trans h.awake⟩

theorem hasWork_of_offer (h : i.pendingState.isSome) : i.hasWork := by
  simp [Inner.hasWork, h]

theorem hasWork_of_subscribe (h : i.pendingSubscribe.isSome) : i.hasWork := by
  simp [Inner.hasWork, h]

/-- An ack that finds an offer waiting is applied by the drain it wakes,
whatever else comes in meanwhile. -/
theorem appliesAck (hruns : s.Runs) {stateNum n : Int}
    (hack : s.inner.retention.ladder.pendingAck = some n) (hle : stateNum ≤ n)
    (hoffer : s.inner.pendingState.isSome)
    (hup : ∀ op ∈ ops, staysUp op) (hcount : s.pump.ackLag ≤ ops.countP (·.isPump)) :
    ∃ k, (run step s (ops.take k)).AppliesAck stateNum := by
  refine reaches_of_rank
    (fun s => s.Runs ∧ (s.pump.peeks → s.inner.pendingState.isSome) ∧
      ∃ n, s.inner.retention.ladder.pendingAck = some n ∧ stateNum ≤ n)
    (fun s => s.pump.ackLag) ?_ ?_ ⟨hruns, fun _ => hoffer, n, hack, hle⟩ hup hcount
  · rintro s ⟨_, _, hack⟩ hzero
    cases hpump : s.pump with
    | resubscribed inbox => exact ⟨⟨inbox, hpump⟩, hack⟩
    | _ => simp [hpump, Pump.ackLag] at hzero
  · rintro s op hop ⟨hruns, hpeeks, n, hack, hle⟩ hgoal
    have hnot : ∀ inbox, s.pump ≠ .resubscribed inbox :=
      fun inbox hpump => hgoal ⟨⟨inbox, hpump⟩, n, hack, hle⟩
    by_cases hpump : op.isPump
    case neg =>
      obtain ⟨inner, hstep, hstate, -, hacks⟩ := step_call hruns hop (Bool.eq_false_iff.mpr hpump)
      obtain ⟨m, hm, hnm⟩ := hacks n hack
      rw [hstep, if_neg hpump]
      exact ⟨⟨⟨hruns.1, hruns.2, hruns.3⟩, fun h => hstate (hpeeks h), m, hm, Int.le_trans hle hnm⟩,
        Nat.le_refl _⟩
    case pos =>
      cases op with
      | pump sent =>
        cases sent with
        | false => exact absurd hop (by simp [staysUp])
        | true =>
          rw [step_pump hruns]
          have hmoves := moves_advance hruns.isOpen fun h => hasWork_of_offer (hpeeks (h ▸ rfl))
          refine ⟨⟨hruns.moves hmoves, fun h => ?_, n, (hmoves.ack hnot).trans hack, hle⟩, ?_⟩
          · rw [hmoves.offer h]
            exact hpeeks (hmoves.peeks h hnot)
          · show (s.advance true).pump.ackLag + 1 ≤ s.pump.ackLag
            cases hat : s.pump with
            | taken inbox => rw [advance, hat]; exact Nat.le_refl _
            | draining =>
              rw [advance, hat]
              show Pump.ackLag (if s.closed then _ else _ : WorkspaceSubscriber).pump + 1 ≤ 2
              rw [if_neg (by simp [hruns.isOpen])]
              exact Nat.le_refl _
            | resubscribed inbox => exact absurd hat (hnot inbox)
            | _ =>
              have hlag := hmoves.lag (by simp [hat])
              have hle := (s.advance true).pump.ackLag_le
              rw [hat] at hlag
              show _ ≤ Pump.lag _ + 2
              omega
      | _ => simp [SubscriberOp.isPump] at hpump

/-- A resubscribe is applied by the drain it wakes, whatever else comes in
meanwhile but another. -/
theorem appliesResubscribe (hruns : s.Runs) {request : WorkspaceSubscribe}
    (hsub : s.inner.pendingSubscribe = some request)
    (hup : ∀ op ∈ ops, staysUp op ∧ ∀ request, op ≠ .noteResubscribe request)
    (hcount : s.pump.lag + 1 ≤ ops.countP (·.isPump)) :
    ∃ k, (run step s (ops.take k)).AppliesResubscribe request := by
  have hrank : (if s.inner.pendingSubscribe.isSome then s.pump.lag + 1 else 0)
      ≤ ops.countP (·.isPump) := by
    rw [if_pos (by simp [hsub])]
    exact hcount
  refine reaches_of_rank
    (fun s => s.Runs ∧ (s.inner.pendingSubscribe = some request ∨ s.AppliesResubscribe request))
    (fun s => if s.inner.pendingSubscribe.isSome then s.pump.lag + 1 else 0) ?_ ?_
    ⟨hruns, .inl hsub⟩ hup hrank
  · grind
  · rintro s op ⟨hop, hother⟩ ⟨hruns, hsub⟩ hgoal
    have hsub := hsub.resolve_right hgoal
    have hsome : s.inner.pendingSubscribe.isSome := by simp [hsub]
    rw [if_pos hsome]
    by_cases hpump : op.isPump
    case neg =>
      obtain ⟨inner, hstep, -, hkept, -⟩ := step_call hruns hop (Bool.eq_false_iff.mpr hpump)
      have hkept := hkept hother
      rw [hstep, if_neg hpump]
      refine ⟨⟨⟨hruns.1, hruns.2, hruns.3⟩, .inl (hkept.trans hsub)⟩, ?_⟩
      rw [if_pos (by simp [hkept, hsub])]
    case pos =>
      cases op with
      | pump sent =>
        cases sent with
        | false => exact absurd hop (by simp [staysUp])
        | true =>
          rw [step_pump hruns]
          have hmoves := moves_advance hruns.isOpen fun _ => hasWork_of_subscribe hsome
          refine ⟨⟨hruns.moves hmoves, ?_⟩, ?_⟩
          · by_cases hat : s.pump = .draining
            case pos =>
              right
              rw [advance, hat]
              show AppliesResubscribe request (if s.closed then _ else _)
              rw [if_neg (by simp [hruns.isOpen])]
              exact ⟨_, rfl, hsub⟩
            case neg => exact .inl ((hmoves.subscribe hat).trans hsub)
          · by_cases hat : s.pump = .draining
            case pos =>
              rw [advance, hat]
              show (if (if s.closed then _ else _ : WorkspaceSubscriber).inner.pendingSubscribe.isSome
                then _ else 0) + 1 ≤ 0 + 1
              rw [if_neg (by simp [hruns.isOpen, Inner.takeInbox])]
            case neg =>
              have hlag := hmoves.lag hat
              rw [if_pos (by rw [hmoves.subscribe hat]; exact hsome)]
              show (s.advance true).pump.lag + 1 + 1 ≤ s.pump.lag + 1
              omega
      | _ => simp [SubscriberOp.isPump] at hpump

/-! ## §4 The wait -/

/-- A thread that waits has nothing to do. -/
def WaitsIdle (s : WorkspaceSubscriber) : Prop :=
  s.waiting → s.closed = false ∧ s.pump = .parked ∧ s.inner.hasWork = false

theorem waiting_close (h : s.waiting = false) : s.close.waiting = false := by
  unfold close
  split
  case isTrue => exact h
  case isFalse => rfl

theorem waiting_send (h : s.waiting = false) (sent : Bool) (next : Pump) :
    (s.send sent next).waiting = false := by
  cases sent with
  | true => exact h
  | false => exact waiting_close h

theorem waiting_plan (h : s.waiting = false) (offer : Offer)
    (didSend : Bool) : (s.plan offer didSend).waiting = false := by
  unfold plan
  cases s.inner.retention.plan offer.epoch with
  | mk planned retention => cases planned <;> exact h

theorem waiting_sendDocument (h : s.waiting = false) (offer : Offer)
    (sent : Bool) (planned : Planned HostWorkspaceState) :
    (s.sendDocument offer sent planned).waiting = false := by
  cases planned with
  | hold => exact h
  | snapshot resetFirst => cases resetFirst <;> exact waiting_send h ..
  | diff baseStateNum base =>
    simp only [sendDocument]
    split
    case isTrue => exact h
    case isFalse => exact waiting_send h ..

theorem waiting_sendInbox (h : s.waiting = false) (loose : RawUuid) (inbox : Inbox) (didSend sent : Bool) :
    (s.sendInbox loose inbox didSend sent).waiting = false := by
  unfold sendInbox
  split
  · exact waiting_send h ..
  · exact waiting_send h ..
  · exact waiting_plan h ..
  · exact h

theorem waitsIdle_advance (h : s.waiting = false) (sent : Bool) : (s.advance sent).WaitsIdle := by
  intro hwaits
  have hasleep {P : Prop} (hawake : (s.advance sent).waiting = false) : P := by
    rw [hawake] at hwaits
    contradiction
  cases hpump : s.pump with
  | parked =>
    rw [advance, hpump] at hwaits ⊢
    dsimp only at hwaits ⊢
    split at hwaits
    case isTrue => exact absurd hwaits (by simp [leave, h])
    case isFalse hopen =>
      grind
  | draining =>
    refine hasleep ?_
    rw [advance, hpump]
    dsimp only
    split <;> exact h
  | sending loose inbox didSend =>
    refine hasleep ?_
    rw [advance, hpump]
    exact waiting_sendInbox h ..
  | claimed offer planned =>
    refine hasleep ?_
    rw [advance, hpump]
    exact waiting_sendDocument h ..
  | _ =>
    refine hasleep ?_
    rw [advance, hpump]
    exact h

theorem waitsIdle_step (h : s.WaitsIdle) (op : SubscriberOp) : (s.step op).WaitsIdle := by
  have hdeliver (change : Inner → Inner) : (s.deliver change).WaitsIdle := by
    unfold deliver
    split
    case isTrue => exact h
    case isFalse => exact nofun
  cases op with
  | start =>
    show s.start.WaitsIdle
    unfold start
    split
    case isTrue => exact h
    case isFalse => exact nofun
  | close =>
    show s.close.WaitsIdle
    unfold close
    split
    case isTrue => exact h
    case isFalse => exact nofun
  | wake => exact nofun
  | pump sent =>
    show (s.pumpStep sent).WaitsIdle
    unfold pumpStep
    split
    case isTrue hruns => exact waitsIdle_advance (by simpa using (Bool.and_eq_true_iff.mp hruns).2) sent
    case isFalse => exact h
  | deliverState | deliverRoster | deliverResult | noteAck | noteResubscribe => exact hdeliver _

/-- A drain that looks at its inbox in `s` returned `true` in `s'`, and no
input came in between. -/
def Returns (s s' : WorkspaceSubscriber) : Prop :=
  s.pumping ∧ s.pump = .draining ∧ s'.pumping ∧ s'.pump = .parked ∧
    ∃ ops, (∀ op ∈ ops, op.isInput = false) ∧ s' = run step s ops

/-- The thread has nothing to do, waits the next time it looks, and does not
drain again before an input. -/
structure Parks (s : WorkspaceSubscriber) : Prop where
  idle : s.inner.hasWork = false
  waits : ∀ sent, (s.step (.pump sent)).waiting
  stays : ∀ ops, (∀ op ∈ ops, op.isInput = false) → (run step s ops).pump = .parked

/-- At the head of `run`, with nothing to do. -/
def Idle (s : WorkspaceSubscriber) : Prop :=
  s.closed = false ∧ s.pumping ∧ s.pump = .parked ∧ s.inner.hasWork = false

theorem Idle.step_pump (h : s.Idle) (sent : Bool) : s.step (.pump sent) = { s with waiting := true } := by
  obtain ⟨hopen, hpumping, hpump, hidle⟩ := h
  show s.pumpStep sent = _
  unfold pumpStep
  split
  case isTrue =>
    rw [advance, hpump]
    rw [if_neg (by simp [hopen]), if_neg (by simp [hidle])]
  case isFalse hwaits =>
    have hwaits : s.waiting = true := by simpa [hpumping] using hwaits
    rw [← hwaits]

theorem Idle.step (h : s.Idle) (hquiet : op.isInput = false) : (s.step op).Idle := by
  cases op with
  | start =>
    show s.start.Idle
    rw [show s.start = s from if_pos (by simp [h.2.1])]
    exact h
  | wake => exact h
  | pump sent =>
    rw [h.step_pump]
    exact h
  | close | deliverState | deliverRoster | deliverResult | noteAck | noteResubscribe =>
    exact absurd hquiet (by simp [SubscriberOp.isInput])

theorem Idle.parks (h : s.Idle) : s.Parks where
  idle := h.2.2.2
  waits sent := by rw [h.step_pump]
  stays ops hquiet :=
    ((meets_of_forall hquiet s).invariant Idle (fun _ _ hop hidle => hidle.step hop) h).2.2.1

theorem Returns.parks_iff (h : s.Returns s') : s'.Parks ↔ ¬ s.inner.HeldBack := by
  obtain ⟨hpumping, hpump, hpumping', hpump', ops, hquiet, rfl⟩ := h
  by_cases hclosed : s.closed
  case pos =>
    have hdrain := closed_run hclosed hpump hquiet hpumping'
    rw [hdrain] at hpump'
    contradiction
  case neg =>
    have hturn : s.Turn s.inner.HeldBack := by
      rw [Turn, hpump]
    have hworks : s.Works s.inner.HeldBack := .inl ⟨Bool.eq_false_iff.mpr hclosed, hpumping, hturn⟩
    rcases works_run hquiet hworks with ⟨hopen, -, hturn⟩ | ⟨-, hgone⟩
    · rw [Turn, hpump'] at hturn
      obtain ⟨htaken, hsome, -⟩ := hturn
      constructor
      · intro hparks hheld
        have hwork := hparks.idle
        rw [htaken.hasWork, hsome.mpr hheld] at hwork
        contradiction
      · intro hfree
        refine Idle.parks ⟨hopen, hpumping', hpump', ?_⟩
        rw [htaken.hasWork]
        exact Bool.eq_false_iff.mpr fun h => hfree (hsome.mp h)
    · rw [hgone] at hpumping'
      contradiction

/-- From every state of every run: a drain no input interrupts leaves the
thread parked exactly when it held no offer back; an ack that finds an offer
waiting, and a resubscribe, let the thread go and are applied by the drain
it is in or goes into; and a thread never waits with work in its inbox. -/
theorem parks_iff_nothing_held_back (request : WorkspaceSubscribe) (ops : List SubscriberOp) :
    let s := run step (new request) ops
    (∀ s', s.Returns s' → (s'.Parks ↔ ¬ s.inner.HeldBack)) ∧
    (s.closed = false → s.pumping → s.inner.pendingState.isSome → ∀ stateNum, ∃ steps,
      ∀ ops : List SubscriberOp, (∀ op ∈ ops, staysUp op) → steps ≤ ops.countP (·.isPump) →
        ∃ k, (run step (s.step (.noteAck stateNum)) (ops.take k)).AppliesAck stateNum) ∧
    (s.closed = false → s.pumping → ∀ again, ∃ steps,
      ∀ ops : List SubscriberOp, (∀ op ∈ ops, staysUp op ∧ ∀ other, op ≠ .noteResubscribe other) →
        steps ≤ ops.countP (·.isPump) →
        ∃ k, (run step (s.step (.noteResubscribe again)) (ops.take k)).AppliesResubscribe again) ∧
    (s.waiting → s.inner.hasWork = false) := by
  intro s
  have hdeliver (hopen : s.closed = false) (hpumping : s.pumping) (change : Inner → Inner) :
      s.deliver change = { s with inner := change s.inner, waiting := false } ∧
        (s.deliver change).Runs := by
    have hdelivered : s.deliver change = { s with inner := change s.inner, waiting := false } :=
      if_neg (by simp [hopen])
    rw [hdelivered]
    exact ⟨rfl, hopen, hpumping, rfl⟩
  refine ⟨fun s' h => h.parks_iff, ?_, ?_, ?_⟩
  · intro hopen hpumping hoffer stateNum
    obtain ⟨hdelivered, hruns⟩ := hdeliver hopen hpumping (·.noteAck stateNum)
    refine ⟨s.pump.ackLag, fun ops hup hcount => ?_⟩
    have hoffer' : (s.step (.noteAck stateNum)).inner.pendingState.isSome := by
      show (s.deliver _).inner.pendingState.isSome
      rw [hdelivered]
      exact hoffer
    have hack : ∃ n, (s.step (.noteAck stateNum)).inner.retention.ladder.pendingAck = some n ∧
        stateNum ≤ n := by
      show ∃ n, (s.deliver _).inner.retention.ladder.pendingAck = some n ∧ _
      rw [hdelivered]
      refine ⟨_, rfl, ?_⟩
      split
      · split <;> omega
      · exact Int.le_refl _
    obtain ⟨n, hn, hle⟩ := hack
    refine appliesAck hruns hn hle hoffer' hup ?_
    rw [hdelivered]
    exact hcount
  · intro hopen hpumping again
    obtain ⟨hdelivered, hruns⟩ := hdeliver hopen hpumping (·.noteResubscribe again)
    refine ⟨s.pump.lag + 1, fun ops hup hcount => appliesResubscribe hruns ?_ hup ?_⟩
    · rw [hdelivered]
      rfl
    · rw [hdelivered]
      exact hcount
  · have hidle : s.WaitsIdle := run_invariant WaitsIdle (fun _ op h => waitsIdle_step h op)
      (show (new request).WaitsIdle from nofun) ops
    exact fun hwaits => (hidle hwaits).2.2

/-- A snapshot is in flight when a second state is delivered. The drain holds
it back and returns `true`; the inbox still has work, and the next drain
ends no differently. -/
theorem held_offer_drained_again :
    let request : WorkspaceSubscribe := ⟨newSessionId, 0, newSessionId, 0, 0, ""⟩
    let s := run step (new request)
      ([.start, .deliverState ⟨newSessionId, 1, .new⟩] ++ List.replicate 9 (.pump true)
        ++ [.deliverState ⟨newSessionId, 2, .new⟩])
    let s' := run step s (List.replicate 5 (.pump true))
    let s'' := run step (s'.step (.pump true)) (List.replicate 5 (.pump true))
    s.Returns s' ∧ ¬ s'.Parks ∧ (s'.step (.pump true)).Returns s'' ∧ s''.inner.hasWork := by
  have hquiet : ∀ op ∈ List.replicate 5 (SubscriberOp.pump true), op.isInput = false := by
    intro op hop
    rw [List.eq_of_mem_replicate hop]
    rfl
  -- no `intro`: the runs are evaluated as closed terms
  refine ⟨⟨rfl, rfl, rfl, rfl, List.replicate 5 (.pump true), hquiet, rfl⟩, fun h => ?_,
    ⟨rfl, rfl, rfl, rfl, List.replicate 5 (.pump true), hquiet, rfl⟩, rfl⟩
  exact Bool.noConfusion (h.idle.symm.trans rfl)

/-- The drain of a first snapshot parks the thread. -/
theorem parks_after_first_snapshot :
    (run step (run step (new ⟨newSessionId, 0, newSessionId, 0, 0, ""⟩)
      [.start, .deliverState ⟨newSessionId, 1, .new⟩, .pump true])
      (List.replicate 13 (.pump true))).Parks := by
  have hquiet : ∀ op ∈ List.replicate 13 (SubscriberOp.pump true), op.isInput = false := by
    intro op hop
    rw [List.eq_of_mem_replicate hop]
    rfl
  refine ((parks_iff_nothing_held_back _ _).1 _
    ⟨rfl, rfl, rfl, rfl, List.replicate 13 (.pump true), hquiet, rfl⟩).mpr ?_
  rintro ⟨-, -, n, hn, -⟩
  exact nomatch (show (none : Option Int) = some n from hn)

end WorkspaceSubscriber

end SlopDesk.HostServer
