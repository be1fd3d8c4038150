/-
SlopDesk.HostServer.SubscriberTheorems — a workspace channel that has come
to rest shows the newest state of its document.

§1 says what a retention is good for when the payloads in it are the states
their numbers name. §2 has the invariants of a channel, a part for each
party, §3 what each step keeps of them, and §4 runs them. They need two
things of the steps. A claim must not wipe an offer newer than the one it is
for. And a diff suppressed as empty must be against a state the client has
not been taken past.
-/
import SlopDesk.HostServer.ClientTheorems

namespace SlopDesk.HostServer

open SlopDesk.Base
open SlopDesk.Document
open SlopDesk.Wire

variable (l : SyncLadder)

/-! ## §1 Payloads that are what their numbers name -/

/-- A call on a ladder that takes nothing in. -/
structure Keeps (l l' : SyncLadder) : Prop where
  window : ∀ e ∈ l'.window.entries, e ∈ l.window.entries
  base : (l'.baseSlot = l.baseSlot ∧ l'.ackedStateNum = l.ackedStateNum) ∨ l'.baseSlot = none ∨
    ∃ e ∈ l.window.entries, l'.baseSlot = some e.slot ∧ l'.ackedStateNum = e.stateNum
  nextSlot : l'.nextSlot = l.nextSlot

theorem keeps_applyPendingAck : Keeps l l.applyPendingAck.1 := by
  unfold SyncLadder.applyPendingAck
  cases l.pendingAck with
  | none => exact ⟨fun _ h => h, .inl ⟨rfl, rfl⟩, rfl⟩
  | some n =>
    dsimp only
    cases hfind : l.window.find n with
    | none => exact ⟨fun _ h => h, .inl ⟨rfl, rfl⟩, rfl⟩
    | some e =>
      obtain ⟨he, rfl⟩ := SyncLadder.mem_of_find hfind
      have hwindow : ∀ x ∈ (l.window.dropThrough e.stateNum e.slot {}).1.entries,
          x ∈ l.window.entries := by
        grind [SyncLadder.entries_dropThrough]
      dsimp only
      split <;> exact ⟨hwindow, .inr (.inr ⟨e, he, rfl, rfl⟩), rfl⟩

theorem keeps_resubscribe (knownEpoch : RawUuid) (knownStateNum : Int) (contributesSize followsFocus : Bool) :
    Keeps l (l.resubscribe knownEpoch knownStateNum contributesSize followsFocus).1 := by
  unfold SyncLadder.resubscribe
  dsimp only
  cases hclaimed : { l with contributesSize, followsFocus, outstanding := none }.claimed knownEpoch
      knownStateNum with
  | none => exact ⟨fun _ h => absurd h List.not_mem_nil, .inr (.inl rfl), rfl⟩
  | some e =>
    have he : e ∈ l.window.entries := by
      unfold SyncLadder.claimed at hclaimed
      split at hclaimed
      case isTrue => exact (SyncLadder.mem_of_find hclaimed).1
      case isFalse => contradiction
    exact ⟨fun _ h => absurd h List.not_mem_nil, .inr (.inr ⟨e, he, rfl, rfl⟩), rfl⟩

theorem keeps_enterEpoch (epoch : RawUuid) : Keeps l (l.enterEpoch epoch).1 := by
  unfold SyncLadder.enterEpoch
  split
  case isTrue => exact ⟨fun _ h => absurd h List.not_mem_nil, .inr (.inl rfl), rfl⟩
  case isFalse => exact ⟨fun _ h => h, .inl ⟨rfl, rfl⟩, rfl⟩

section
variable {τ : Type} {named named' : Int → Option τ} {r : Retention τ}

/-- Every payload a ladder can reach is what its number names. -/
structure Backed (named : Int → Option τ) (r : Retention τ) : Prop where
  window : ∀ e ∈ r.ladder.window.entries, ∀ p, r.held[e.slot]? = some p → named e.stateNum = some p
  base : ∀ slot p, r.ladder.baseSlot = some slot → r.held[slot]? = some p →
    named r.ladder.ackedStateNum = some p

theorem Backed.mono (h : Backed named r) (hmono : ∀ n p, named n = some p → named' n = some p) :
    Backed named' r :=
  ⟨fun e he p hp => hmono _ _ (h.window e he p hp), fun slot p hs hp => hmono _ _ (h.base slot p hs hp)⟩

theorem lookup_of_dropReleased {held : BTreeMap UInt32 τ} {released : Released} {slot : UInt32}
    {p : τ} (h : (Retention.dropReleased held released)[slot]? = some p) : held[slot]? = some p := by
  rw [Retention.dropReleased, BTreeMap.lookup_foldl_erase] at h
  split at h
  case isTrue => contradiction
  case isFalse => exact h

section

variable (h : Backed named r)
include h

theorem Backed.keeps {l : SyncLadder} (hkeeps : Keeps r.ladder l)
    (released : Released) : Backed named ⟨l, Retention.dropReleased r.held released⟩ where
  window e he p hp := h.window e (hkeeps.window e he) p (lookup_of_dropReleased hp)
  base slot p hslot hp := by
    have hheld := lookup_of_dropReleased hp
    rcases hkeeps.base with ⟨hbase, hacked⟩ | hnone | ⟨e, he, hbase, hacked⟩
    · rw [hacked]
      exact h.base slot p (hbase ▸ hslot) hheld
    · rw [hnone] at hslot
      contradiction
    · rw [hbase] at hslot
      rw [hacked]
      exact h.window e he p (Option.some.inj hslot ▸ hheld)

theorem Backed.noteAck (n : Int) : Backed named (r.noteAck n) := ⟨h.window, h.base⟩

theorem Backed.applyPendingAck : Backed named r.applyPendingAck :=
  h.keeps (keeps_applyPendingAck r.ladder) _

theorem Backed.resubscribe (knownEpoch : RawUuid) (knownStateNum : Int)
    (contributesSize followsFocus : Bool) :
    Backed named (r.resubscribe knownEpoch knownStateNum contributesSize followsFocus) :=
  h.keeps (keeps_resubscribe ..) _

theorem Backed.plan (epoch : RawUuid) : Backed named (r.plan epoch).2 := by
  by_cases hfree : r.ladder.outstanding.isSome
  case pos =>
    rw [(Retention.plan_hold hfree epoch).1]
    exact h
  case neg =>
    rw [(Retention.plan_send hfree epoch).1]
    exact h.keeps (keeps_enterEpoch ..) _

theorem Backed.commit {n : Int} {payload : τ} (hnamed : named n = some payload)
    (hfresh : r.ladder.nextSlot ∉ r.ladder.reachable) (hreal : r.ladder.nextSlot ≠ noSlot) :
    Backed named (r.commit n payload) := by
  have htakes := SyncLadder.takes_commit r.ladder n
  obtain ⟨kept, hentries, hkept⟩ := htakes.window
  have hcommit := Retention.commit_eq hreal n payload
  have hother : ∀ slot ∈ r.ladder.reachable, ∀ p, (r.commit n payload).held[slot]? = some p →
      r.held[slot]? = some p := by
    intro slot hslot p hp
    rw [hcommit] at hp
    rw [BTreeMap.lookup_insert, if_neg fun heq : slot = r.ladder.nextSlot => hfresh (heq ▸ hslot)] at hp
    exact lookup_of_dropReleased hp
  constructor
  · intro e he p hp
    rw [hcommit] at he
    rw [hentries] at he
    rcases List.mem_append.mp he with hold | hnew
    · have hin := List.mem_of_mem_filter (hkept.subset hold)
      exact h.window e hin p
        (hother e.slot (List.mem_append_left _ (List.mem_map_of_mem hin)) p hp)
    · grind
  · intro slot p hslot hp
    rw [hcommit] at hslot
    rw [htakes.baseSlot] at hslot
    exact h.base slot p hslot
      (hother slot (List.mem_append_right _ (by simp [hslot])) p hp)

end

end

theorem nextSlot_commit_ne (n : Int) : (l.commit n).2.nextSlot ≠ noSlot := by
  show (if l.nextSlot + 1 = noSlot then 0 else l.nextSlot + 1) ≠ noSlot
  split
  case isTrue => decide
  case isFalse hne => exact hne

/-! ## §2 What a channel keeps -/

namespace Pump

/-- The offer the pump has in hand. -/
def offer : Pump → Option Offer
  | .taken inbox | .resubscribed inbox | .acked inbox | .sending _ inbox _ => inbox.offer
  | .planned o _ | .claimed o _ | .shipped o => some o
  | .parked | .draining => none

/-- The offer in hand, while it was only peeked. -/
def peeked : Pump → Option Offer
  | .taken inbox | .resubscribed inbox | .acked inbox | .sending _ inbox _ => inbox.offer
  | .planned o _ => some o
  | .claimed .. | .shipped _ | .parked | .draining => none

/-- The offer in hand, once it is claimed and until its frame is out. -/
def unsent : Pump → Option Offer
  | .claimed o _ => some o
  | _ => none

/-- The frame planned for the offer in hand. -/
def frame : Pump → Option (Planned HostWorkspaceState)
  | .planned _ p | .claimed _ p => some p
  | _ => none

/-- The resubscribe in hand, until it is applied. -/
def request : Pump → Option WorkspaceSubscribe
  | .taken inbox => inbox.subscribe
  | _ => none

def isParked : Pump → Bool
  | .parked => true
  | _ => false

end Pump

namespace WorkspaceChannel

variable {c : WorkspaceChannel}
variable {c' : WorkspaceChannel} {n : Int} {r : WorkspaceSubscribe} {f : DocumentFrame} {inbox : Inbox}
variable {o : Offer} {planned : Planned HostWorkspaceState}
variable {uplink : List WorkspaceRequest} {link : List DocumentFrame} {didSend : Bool} {loose : RawUuid}
variable {client : Client}

/-- The client has held what `n` names. -/
def Held (c : WorkspaceChannel) (n : Int) : Prop :=
  c.client.mirror.epoch = some c.document.epoch ∧ n ≤ c.client.mirror.stateNum

/-- Neither the client nor a frame on its way is past `n`. -/
def Within (c : WorkspaceChannel) (n : Int) : Prop :=
  (c.client.mirror.epoch = some c.document.epoch → c.client.mirror.stateNum ≤ n) ∧
  ∀ f ∈ c.link, IsDocument f → f.newStateNum ≤ n

instance (c : WorkspaceChannel) (n : Int) : Decidable (c.Within n) :=
  inferInstanceAs (Decidable (_ ∧ _))

/-- A request that claims nothing the client has not held. -/
def Honest (c : WorkspaceChannel) (r : WorkspaceSubscribe) : Prop :=
  r.knownEpoch = c.document.epoch → r.knownStateNum ≠ 0 → c.Held r.knownStateNum

/-- A frame that fits the document and the client. -/
def Right (c : WorkspaceChannel) : Planned HostWorkspaceState → Prop
  | .hold => False
  | .snapshot resetFirst => resetFirst = false
  | .diff baseStateNum base => c.document.named baseStateNum = some base ∧ c.Held baseStateNum

/-- The offers: all of them states of the document, the pending one the
newest, and an offer in hand the newest too unless another is pending. -/
structure Offered (c : WorkspaceChannel) : Prop where
  caps : c.document.WithinCaps
  pending : ∀ o, c.inner.pendingState = some o → o = c.document.offer
  inHand : ∀ o, c.pump.offer = some o → o.Genuine c.document
  peeked : ∀ o, c.pump.peeked = some o → c.inner.pendingState ≠ none
  unsent : ∀ o, c.pump.unsent = some o → o = c.document.offer ∨ c.inner.pendingState ≠ none

/-- The link: frames of the document in the order of their numbers, from
what the client holds to what the pump has in hand. -/
structure Ordered (c : WorkspaceChannel) : Prop where
  follows : Follows c.document c.client.mirror
  carries : ∀ f ∈ c.link, Carries c.document f
  ascending : c.link.Pairwise fun f g => IsDocument f → IsDocument g → f.newStateNum ≤ g.newStateNum
  ahead : c.client.mirror.epoch = some c.document.epoch → ∀ f ∈ c.link, IsDocument f →
    c.client.mirror.stateNum ≤ f.newStateNum
  within : ∀ o, c.pump.offer = some o → c.Within o.stateNum

/-- The ladder: a base was held by the client, and so was everything that
can become one. -/
structure Earned (c : WorkspaceChannel) : Prop where
  epoch : ∀ e, c.inner.retention.ladder.sentEpoch = some e → e = c.document.epoch
  acks : ∀ n, .ack n ∈ c.uplink → c.Held n
  pendingAck : ∀ n, c.inner.retention.ladder.pendingAck = some n → c.Held n
  requests : ∀ r, .subscribe r ∈ c.uplink → c.Honest r
  pendingSubscribe : ∀ r, c.inner.pendingSubscribe = some r → c.Honest r
  request : ∀ r, c.pump.request = some r → c.Honest r
  base : c.inner.retention.ladder.baseSlot ≠ none → c.Held c.inner.retention.ladder.ackedStateNum
  backed : Backed c.document.named c.inner.retention
  slot : c.inner.retention.ladder.nextSlot ≠ noSlot
  planned : ∀ p, c.pump.frame = some p → c.Right p

/-- The newest state is on its way: it is pending, or will be offered again,
or is in the pump's hand, or is what the client ends up holding. -/
def Arriving (c : WorkspaceChannel) : Prop :=
  c.inner.pendingState ≠ none ∨ c.handler = .resubscribing ∨ (∃ r, .subscribe r ∈ c.uplink) ∨
  c.pump.unsent ≠ none ∨ Reaches c.document.state c.client c.link

structure Inv (c : WorkspaceChannel) : Prop where
  offered : c.Offered
  ordered : c.Ordered
  earned : c.Earned
  arriving : c.Arriving

theorem honest_subscribeRequest (c : WorkspaceChannel) : c.Honest c.client.subscribeRequest := by
  intro hepoch hnum
  cases hm : c.client.mirror.epoch with
  | none => simp [Client.subscribeRequest, WorkspaceMirror.knownStateNum, hm] at hnum
  | some epoch =>
    simp only [Client.subscribeRequest, hm, Option.getD_some] at hepoch
    refine ⟨by rw [hm, hepoch], ?_⟩
    simp [Client.subscribeRequest, WorkspaceMirror.knownStateNum, hm]

/-! ### Steps no part looks at -/

/-- Two channels that differ in nothing the invariant reads. -/
structure Alike (c c' : WorkspaceChannel) : Prop where
  document : c'.document = c.document
  pump : c'.pump = c.pump
  handler : c'.handler = c.handler ∨ c.handler ≠ .resubscribing
  link : c'.link = c.link
  pendingState : c'.inner.pendingState = c.inner.pendingState
  pendingSubscribe : c'.inner.pendingSubscribe = c.inner.pendingSubscribe
  retention : c'.inner.retention = c.inner.retention
  acks : ∀ n, .ack n ∈ c'.uplink → .ack n ∈ c.uplink
  requests : ∀ r, .subscribe r ∈ c'.uplink ↔ .subscribe r ∈ c.uplink
  truth : SameTruth c.client.mirror c'.client.mirror

theorem Alike.held (h : c.Alike c') (hn : c.Held n) : c'.Held n := by
  rw [Held, h.document, h.truth.epoch, h.truth.stateNum]
  exact hn

theorem Alike.within (h : c.Alike c') (hn : c.Within n) : c'.Within n := by
  rw [Within, h.document, h.truth.epoch, h.truth.stateNum, h.link]
  exact hn

theorem Alike.honest (h : c.Alike c') (hr : c.Honest r) : c'.Honest r := by
  intro hepoch hnum
  rw [h.document] at hepoch
  exact h.held (hr hepoch hnum)

theorem Alike.right (h : c.Alike c') {p : Planned HostWorkspaceState} (hp : c.Right p) : c'.Right p := by
  cases p with
  | hold => exact hp
  | snapshot resetFirst => exact hp
  | diff base state => exact ⟨h.document ▸ hp.1, h.held hp.2⟩

theorem Inv.alike (hinv : c.Inv) (h : c.Alike c') : c'.Inv where
  offered := {
    caps := h.document ▸ hinv.offered.caps
    pending := by rw [h.pendingState, h.document]; exact hinv.offered.pending
    inHand := by rw [h.pump, h.document]; exact hinv.offered.inHand
    peeked := by rw [h.pump, h.pendingState]; exact hinv.offered.peeked
    unsent := by rw [h.pump, h.document, h.pendingState]; exact hinv.offered.unsent }
  ordered := {
    follows := h.document ▸ h.truth.follows hinv.ordered.follows
    carries := by rw [h.link, h.document]; exact hinv.ordered.carries
    ascending := by rw [h.link]; exact hinv.ordered.ascending
    ahead := by
      rw [h.truth.epoch, h.document, h.link, h.truth.stateNum]
      exact hinv.ordered.ahead
    within := by
      rw [h.pump]
      exact fun o ho => h.within (hinv.ordered.within o ho) }
  earned := {
    epoch := by rw [h.retention, h.document]; exact hinv.earned.epoch
    acks := fun n hn => h.held (hinv.earned.acks n (h.acks n hn))
    pendingAck := by rw [h.retention]; exact fun n hn => h.held (hinv.earned.pendingAck n hn)
    requests := fun r hr => h.honest (hinv.earned.requests r ((h.requests r).mp hr))
    pendingSubscribe := by
      rw [h.pendingSubscribe]
      exact fun r hr => h.honest (hinv.earned.pendingSubscribe r hr)
    request := by rw [h.pump]; exact fun r hr => h.honest (hinv.earned.request r hr)
    base := by rw [h.retention]; exact fun hbase => h.held (hinv.earned.base hbase)
    backed := by rw [h.retention, h.document]; exact hinv.earned.backed
    slot := by rw [h.retention]; exact hinv.earned.slot
    planned := by rw [h.pump]; exact fun p hp => h.right (hinv.earned.planned p hp) }
  arriving := by
    rcases hinv.arriving with hpending | hhandler | ⟨r, hr⟩ | hunsent | hreaches
    · exact .inl (h.pendingState ▸ hpending)
    · exact .inr (.inl ((h.handler.resolve_right fun hne => hne hhandler).trans hhandler))
    · exact .inr (.inr (.inl ⟨r, (h.requests r).mpr hr⟩))
    · exact .inr (.inr (.inr (.inl (h.pump ▸ hunsent))))
    · rw [Arriving, h.document, h.link]
      exact .inr (.inr (.inr (.inr (hreaches.congr h.truth))))

/-! ## §3 Steps -/

/-- The pump is about to lose nothing: a claim is of the offer that is
pending, an empty diff is against a state the client is not taken past, and
a slot that is minted is not in use. -/
def LosesNothing (c : WorkspaceChannel) : Pump → Prop
  | .planned offer _ => (c.inner.pendingState.all fun o => o.stateNum = offer.stateNum) = true
  | .claimed offer (.diff base state) => (offer.state.diffFrom state).isEmpty = true → c.Within base
  | .shipped _ => c.inner.retention.ladder.nextSlot ∉ c.inner.retention.ladder.reachable
  | _ => True

/-- A step that loses nothing: what is offered is within the caps, and the
pump loses nothing. -/
def Undisturbed (c : WorkspaceChannel) : ChannelOp → Prop
  | .offer next => next.WithinCaps
  | .pump => c.LosesNothing c.pump
  | _ => True

instance (c : WorkspaceChannel) : (pump : Pump) → Decidable (c.LosesNothing pump)
  | .planned .. => inferInstanceAs (Decidable (_ = true))
  | .claimed _ (.diff ..) => inferInstanceAs (Decidable (_ → _))
  | .shipped _ => inferInstanceAs (Decidable (¬ _ ∈ _))
  | .claimed _ .hold | .claimed _ (.snapshot _) | .parked | .draining | .taken _ | .resubscribed _
  | .acked _ | .sending .. => .isTrue trivial

instance (c : WorkspaceChannel) : (op : ChannelOp) → Decidable (c.Undisturbed op)
  | .offer next => inferInstanceAs (Decidable next.WithinCaps)
  | .pump => inferInstanceAs (Decidable (c.LosesNothing c.pump))
  | .deliverRoster _ | .deliverResult _ | .hear _ | .reply | .receive | .sendSubscribe | .stage ..
  | .sendIntent | .expirePending .. => .isTrue trivial

/-! ### The document's callers -/

theorem Inv.bump (h : c.Inv) {next : HostWorkspaceState} (hnext : next.WithinCaps) : (c.bump next).Inv where
  offered := {
    caps := h.offered.caps.advance hnext
    pending := fun o ho => (Option.some.inj ho).symm
    inHand := fun o ho => (h.offered.inHand o ho).advance next
    peeked := fun o ho => by simp [WorkspaceChannel.bump, Inner.deliverState]
    unsent := fun o ho => .inr (by simp [WorkspaceChannel.bump, Inner.deliverState]) }
  ordered := { h.ordered with
    follows := fun hepoch => WorkspaceDocument.named_advance next (h.ordered.follows hepoch)
    carries := fun f hf => (h.ordered.carries f hf).advance next }
  earned := { h.earned with
    backed := h.earned.backed.mono fun _ _ hn => WorkspaceDocument.named_advance next hn
    planned := fun p hp => by
      have hright := h.earned.planned p hp
      cases p with
      | hold => exact hright
      | snapshot resetFirst => exact hright
      | diff base state => exact ⟨WorkspaceDocument.named_advance next hright.1, hright.2⟩ }
  arriving := .inl (by simp [WorkspaceChannel.bump, Inner.deliverState])

theorem Inv.noteAck (h : c.Inv) (huplink : c.uplink = .ack n :: uplink) :
    ({ c with inner := c.inner.noteAck n, uplink } : WorkspaceChannel).Inv where
  offered := { h.offered with }
  ordered := { h.ordered with }
  earned := { h.earned with
    acks := fun k hk => h.earned.acks k (by rw [huplink]; exact List.mem_cons_of_mem _ hk)
    pendingAck := by
      intro k hk
      have hn : c.Held n := h.earned.acks n (by rw [huplink]; exact List.mem_cons_self ..)
      have hnoted := Option.some.inj hk
      cases hpending : c.inner.retention.ladder.pendingAck with
      | none =>
        rw [hpending] at hnoted
        exact hnoted ▸ hn
      | some held =>
        rw [hpending] at hnoted
        dsimp only at hnoted
        split at hnoted
        case isTrue => exact hnoted ▸ h.earned.pendingAck held hpending
        case isFalse => exact hnoted ▸ hn
    requests := fun r hr => h.earned.requests r (by rw [huplink]; exact List.mem_cons_of_mem _ hr)
    backed := h.earned.backed.noteAck n }
  arriving := by
    rcases h.arriving with hpending | hhandler | ⟨r, hr⟩ | hunsent | hreaches
    · exact .inl hpending
    · exact .inr (.inl hhandler)
    · refine .inr (.inr (.inl ⟨r, ?_⟩))
      rw [huplink] at hr
      exact (List.mem_cons.mp hr).resolve_left (by simp)
    · exact .inr (.inr (.inr (.inl hunsent)))
    · exact .inr (.inr (.inr (.inr hreaches)))

theorem Inv.noteResubscribe (h : c.Inv) (huplink : c.uplink = .subscribe r :: uplink) :
    ({ c with inner := c.inner.noteResubscribe r, handler := .resubscribing, uplink } :
      WorkspaceChannel).Inv where
  offered := { h.offered with }
  ordered := { h.ordered with }
  earned := { h.earned with
    acks := fun k hk => h.earned.acks k (by rw [huplink]; exact List.mem_cons_of_mem _ hk)
    requests := fun r hr => h.earned.requests r (by rw [huplink]; exact List.mem_cons_of_mem _ hr)
    pendingSubscribe := fun r' hr' => by
      have hhonest : c.Honest r := h.earned.requests r (by rw [huplink]; exact List.mem_cons_self ..)
      exact Option.some.inj hr' ▸ hhonest }
  arriving := .inr (.inl rfl)

theorem Inv.hear (h : c.Inv) (status : UInt8) : (c.hear status).Inv := by
  unfold WorkspaceChannel.hear
  split
  case h_1 n uplink _ huplink => exact h.noteAck huplink
  case h_2 r uplink _ huplink => exact h.noteResubscribe huplink
  case h_3 intent uplink hidle huplink =>
    refine h.alike ⟨rfl, rfl, .inr (by rw [hidle]; simp), rfl, rfl, rfl, rfl, ?_, ?_, .refl _⟩
    · simp [huplink]
    · rw [huplink]
      simp
  case h_4 => exact h

theorem Inv.deliverState (h : c.Inv) (handler : Handler) :
    ({ c with inner := c.inner.deliverState c.document.offer, handler } : WorkspaceChannel).Inv where
  offered := { h.offered with
    pending := fun o ho => (Option.some.inj ho).symm
    peeked := fun o ho => by simp [Inner.deliverState]
    unsent := fun o ho => .inr (by simp [Inner.deliverState]) }
  ordered := { h.ordered with }
  earned := { h.earned with }
  arriving := .inl (by simp [Inner.deliverState])

theorem Inv.reply (h : c.Inv) : c.reply.Inv := by
  unfold WorkspaceChannel.reply
  split
  case h_1 => exact h
  case h_2 => exact h.deliverState .idle
  case h_3 result hanswering =>
    exact h.alike ⟨rfl, rfl, .inr (by rw [hanswering]; simp), rfl, rfl, rfl, rfl, fun _ hn => hn,
      fun _ => .rfl, .refl _⟩

/-! ### The client -/

theorem Inv.sendSubscribe (h : c.Inv) :
    ({ c with uplink := c.uplink ++ [.subscribe c.client.subscribeRequest] } :
      WorkspaceChannel).Inv where
  offered := { h.offered with }
  ordered := { h.ordered with }
  earned := { h.earned with
    acks := fun n hn => h.earned.acks n (by simpa using hn)
    requests := fun r hr => by
      rcases List.mem_append.mp hr with hold | hnew
      · exact h.earned.requests r hold
      · obtain rfl : r = c.client.subscribeRequest := by simpa using hnew
        exact c.honest_subscribeRequest }
  arriving := .inr (.inr (.inl ⟨_, List.mem_append_right _ (List.mem_singleton.mpr rfl)⟩))

/-- What one frame does to a channel, seen from the client: nothing to its
host truth, nothing at all but a request, or a newer state and its ack. -/
theorem receive_cases (h : c.Inv) (hlink : c.link = f :: link) :
    (SameTruth c.client.mirror (c.client.handle f).1.mirror ∧ (c.client.handle f).2 = []) ∨
    ((c.client.handle f).1 = c.client ∧
      (c.client.handle f).2 = [.subscribe c.client.subscribeRequest]) ∨
    (IsDocument f ∧ (c.client.handle f).2 = [.ack f.newStateNum] ∧
      ∃ s, c.document.named f.newStateNum = some s ∧
        (c.client.handle f).1.mirror.Holds c.document.epoch f.newStateNum s) := by
  have hf := h.ordered.carries f (by rw [hlink]; exact List.mem_cons_self ..)
  rcases handle_cases h.offered.caps hf h.ordered.follows with
    ⟨hsame, hnone, _⟩ | ⟨_, hself, hasks⟩ | hfolds
  · exact .inl ⟨hsame, hnone⟩
  · exact .inr (.inl ⟨hself, hasks⟩)
  · exact .inr (.inr hfolds)

theorem held_receive (h : c.Inv) (hlink : c.link = f :: link) (hn : c.Held n) :
    (c.client.handle f).1.mirror.epoch = some c.document.epoch ∧
      n ≤ (c.client.handle f).1.mirror.stateNum := by
  rcases receive_cases h hlink with ⟨hsame, _⟩ | ⟨hself, _⟩ | ⟨hdocument, _, s, _, hholds⟩
  · rw [hsame.epoch, hsame.stateNum]
    exact hn
  · rw [hself]
    exact hn
  · have hahead := h.ordered.ahead hn.1 f (by rw [hlink]; exact List.mem_cons_self ..) hdocument
    rw [hholds.epoch, hholds.stateNum]
    exact ⟨rfl, Int.le_trans hn.2 hahead⟩

theorem Inv.receive (h : c.Inv) : c.receive.Inv := by
  unfold WorkspaceChannel.receive
  split
  case h_1 => exact h
  case h_2 f link hlink =>
    have hf := h.ordered.carries f (by rw [hlink]; exact List.mem_cons_self ..)
    have htail : ∀ g ∈ link, g ∈ c.link := fun g hg => by
      rw [hlink]
      exact List.mem_cons_of_mem f hg
    have hsorted := h.ordered.ascending
    rw [hlink, List.pairwise_cons] at hsorted
    have hheld : ∀ {n}, c.Held n → _ := fun hn => held_receive h hlink hn
    have hhonest : ∀ {r}, c.Honest r → r.knownEpoch = c.document.epoch → r.knownStateNum ≠ 0 →
        (c.client.handle f).1.mirror.epoch = some c.document.epoch ∧
          r.knownStateNum ≤ (c.client.handle f).1.mirror.stateNum :=
      fun hr hepoch hnum => hheld (hr hepoch hnum)
    have hcases := receive_cases h hlink
    refine {
      offered := ⟨h.offered.caps, h.offered.pending, h.offered.inHand, h.offered.peeked,
        h.offered.unsent⟩
      ordered := {
        follows := follows_handle h.offered.caps hf h.ordered.follows
        carries := fun g hg => h.ordered.carries g (htail g hg)
        ascending := hsorted.2
        ahead := ?_
        within := ?_ }
      earned := {
        epoch := h.earned.epoch
        acks := ?_
        pendingAck := fun n hn => hheld (h.earned.pendingAck n hn)
        requests := ?_
        pendingSubscribe := fun r hr => hhonest (h.earned.pendingSubscribe r hr)
        request := fun r hr => hhonest (h.earned.request r hr)
        base := fun hbase => hheld (h.earned.base hbase)
        backed := h.earned.backed
        slot := h.earned.slot
        planned := ?_ }
      arriving := ?_ }
    · intro hepoch g hg hdocument
      rcases hcases with ⟨hsame, _⟩ | ⟨hself, _⟩ | ⟨hfdocument, _, s, _, hholds⟩
      · rw [hsame.epoch] at hepoch
        rw [hsame.stateNum]
        exact h.ordered.ahead hepoch g (htail g hg) hdocument
      · rw [hself] at hepoch ⊢
        exact h.ordered.ahead hepoch g (htail g hg) hdocument
      · grind [hholds.stateNum]
    · intro o ho
      have hwithin := h.ordered.within o ho
      refine ⟨?_, fun g hg => hwithin.2 g (htail g hg)⟩
      intro hepoch
      rcases hcases with ⟨hsame, _⟩ | ⟨hself, _⟩ | ⟨hfdocument, _, s, _, hholds⟩
      · rw [hsame.epoch] at hepoch
        rw [hsame.stateNum]
        exact hwithin.1 hepoch
      · rw [hself] at hepoch ⊢
        exact hwithin.1 hepoch
      · rw [hholds.stateNum]
        exact hwithin.2 f (by rw [hlink]; exact List.mem_cons_self ..) hfdocument
    · intro n hn
      rcases List.mem_append.mp hn with hold | hnew
      · exact hheld (h.earned.acks n hold)
      · rcases hcases with ⟨_, hnone⟩ | ⟨_, hasks⟩ | ⟨_, hack, s, _, hholds⟩
        · grind
        · rw [hasks] at hnew
          simp at hnew
        · rw [hack, List.mem_singleton] at hnew
          obtain rfl := WorkspaceRequest.ack.inj hnew
          exact ⟨hholds.epoch, Int.le_of_eq hholds.stateNum.symm⟩
    · intro r hr
      rcases List.mem_append.mp hr with hold | hnew
      · exact hhonest (h.earned.requests r hold)
      · rcases hcases with ⟨_, hnone⟩ | ⟨_, hasks⟩ | ⟨_, hack, _⟩
        · grind
        · rw [hasks, List.mem_singleton] at hnew
          obtain rfl := WorkspaceRequest.subscribe.inj hnew
          exact hhonest c.honest_subscribeRequest
        · rw [hack] at hnew
          simp at hnew
    · intro p hp
      have hright := h.earned.planned p hp
      cases p with
      | hold => exact hright
      | snapshot resetFirst => exact hright
      | diff base state => exact ⟨hright.1, hheld hright.2⟩
    · rcases h.arriving with hpending | hhandler | ⟨r, hr⟩ | hunsent | hreaches
      · exact .inl hpending
      · exact .inr (.inl hhandler)
      · exact .inr (.inr (.inl ⟨r, List.mem_append_left _ hr⟩))
      · exact .inr (.inr (.inr (.inl hunsent)))
      · rw [hlink] at hreaches
        rcases hreaches with ⟨r, hr⟩ | hrest
        · exact .inr (.inr (.inl ⟨r, List.mem_append_right _ hr⟩))
        · exact .inr (.inr (.inr (.inr hrest)))

theorem Inv.stage (h : c.Inv) (proposed : HostWorkspaceState → Option WorkspaceStateDiff)
    (intent : WorkspaceIntent) (issuedAt : Float) :
    ({ c with client := c.client.stage proposed intent issuedAt } : WorkspaceChannel).Inv :=
  h.alike ⟨rfl, rfl, .inl rfl, rfl, rfl, rfl, rfl, fun _ hn => hn, fun _ => .rfl,
    sameTruth_stage ..⟩

theorem Inv.sendIntent (h : c.Inv) : c.sendIntent.Inv := by
  unfold WorkspaceChannel.sendIntent
  split
  case h_1 => exact h
  case h_2 =>
    exact h.alike ⟨rfl, rfl, .inl rfl, rfl, rfl, rfl, rfl, fun n hn => by simpa using hn,
      fun r => by simp, ⟨rfl, rfl, rfl⟩⟩

/-! ### The pump -/

section

variable (h : c.Inv)
include h

theorem Inv.take (hfree : c.pump.unsent = none) : c.take.Inv where
  offered := { h.offered with
    inHand := fun o ho => by
      rw [h.offered.pending o ho]
      exact genuine_offer c.document
    peeked := fun o ho hnone => by
      have hsome : c.inner.pendingState = some o := ho
      have hgone : c.inner.pendingState = none := hnone
      rw [hsome] at hgone
      contradiction
    unsent := fun o ho => by contradiction }
  ordered := { h.ordered with
    within := fun o ho => by
      rw [h.offered.pending o ho]
      exact ⟨fun hepoch => WorkspaceDocument.named_le (h.ordered.follows hepoch),
        fun f hf hdocument => (h.ordered.carries f hf).newStateNum_le hdocument⟩ }
  earned := { h.earned with
    pendingSubscribe := fun r hr => by contradiction
    request := h.earned.pendingSubscribe
    planned := fun p hp => by contradiction }
  arriving := by
    rcases h.arriving with hpending | hhandler | hasks | hunsent | hreaches
    · exact .inl hpending
    · exact .inr (.inl hhandler)
    · exact .inr (.inr (.inl hasks))
    · exact absurd hfree hunsent
    · exact .inr (.inr (.inr (.inr hreaches)))

/-- A step inside a turn: the pump moves on with what it has in hand, and the
ladder takes a call that is earned. -/
theorem Inv.turn {pump : Pump} {inner : Inner} (hoffer : ∀ o, pump.offer = some o → c.pump.offer = some o)
    (hpeeked : ∀ o, pump.peeked = some o → c.pump.peeked = some o)
    (hfree : c.pump.unsent = none) (hfree' : pump.unsent = none)
    (hrequest : ∀ r, pump.request = some r → c.pump.request = some r)
    (hplanned : ∀ p, pump.frame = some p → c.Right p) (hpending : inner.pendingState = c.inner.pendingState)
    (hsubscribe : inner.pendingSubscribe = c.inner.pendingSubscribe)
    (hepoch : ∀ e, inner.retention.ladder.sentEpoch = some e → e = c.document.epoch)
    (hacks : ∀ n, inner.retention.ladder.pendingAck = some n → c.Held n)
    (hbase : inner.retention.ladder.baseSlot ≠ none → c.Held inner.retention.ladder.ackedStateNum)
    (hbacked : Backed c.document.named inner.retention) (hslot : inner.retention.ladder.nextSlot ≠ noSlot) :
    ({ c with pump, inner } : WorkspaceChannel).Inv where
  offered := {
    caps := h.offered.caps
    pending := fun o ho => h.offered.pending o (hpending ▸ ho)
    inHand := fun o ho => h.offered.inHand o (hoffer o ho)
    peeked := fun o ho => by
      rw [hpending]
      exact h.offered.peeked o (hpeeked o ho)
    unsent := fun o ho => by
      rw [hfree'] at ho
      contradiction }
  ordered := ⟨h.ordered.follows, h.ordered.carries, h.ordered.ascending, h.ordered.ahead,
    fun o ho => h.ordered.within o (hoffer o ho)⟩
  earned := { h.earned with
    epoch := hepoch
    pendingAck := hacks
    pendingSubscribe := fun r hr => h.earned.pendingSubscribe r (hsubscribe ▸ hr)
    request := fun r hr => h.earned.request r (hrequest r hr)
    base := hbase
    backed := hbacked
    slot := hslot
    planned := hplanned }
  arriving := by
    rcases h.arriving with hoffered | hhandler | hasks | hunsent | hreaches
    · exact .inl (hpending ▸ hoffered)
    · exact .inr (.inl hhandler)
    · exact .inr (.inr (.inl hasks))
    · exact absurd hfree hunsent
    · exact .inr (.inr (.inr (.inr hreaches)))

theorem Inv.move {pump : Pump} (hoffer : ∀ o, pump.offer = some o → c.pump.offer = some o)
    (hpeeked : ∀ o, pump.peeked = some o → c.pump.peeked = some o)
    (hfree : c.pump.unsent = none) (hfree' : pump.unsent = none)
    (hrequest : ∀ r, pump.request = some r → c.pump.request = some r)
    (hplanned : pump.frame = none) : ({ c with pump } : WorkspaceChannel).Inv :=
  h.turn hoffer hpeeked hfree hfree' hrequest
    (fun p hp => by rw [hplanned] at hp; contradiction) rfl rfl h.earned.epoch h.earned.pendingAck
    h.earned.base h.earned.backed h.earned.slot

theorem Inv.finish (hfree : c.pump.unsent = none) (didSend : Bool) : (c.finish didSend).Inv := by
  cases didSend <;>
    exact h.move (fun _ ho => by contradiction) (fun _ ho => by contradiction) hfree rfl
      (fun _ hr => by contradiction) rfl

theorem Inv.applyResubscribe (hpump : c.pump = .taken inbox) (hr : inbox.subscribe = some r) :
    ({ c with pump := .resubscribed inbox, inner := c.inner.applyResubscribe r } :
      WorkspaceChannel).Inv := by
  have hhonest : c.Honest r := h.earned.request r (by rw [hpump]; exact hr)
  obtain ⟨hpending, hsent, hcases⟩ := c.inner.retention.ladder.resubscribe_cases r.knownEpoch
    r.knownStateNum r.contributesSize r.followsFocus
  have hkeeps := keeps_resubscribe c.inner.retention.ladder r.knownEpoch r.knownStateNum
    r.contributesSize r.followsFocus
  refine h.turn (fun o ho => by rw [hpump]; exact ho) (fun o ho => by rw [hpump]; exact ho)
    (by rw [hpump]; rfl) rfl (fun _ hr => by contradiction) (fun _ hp => by contradiction) rfl rfl
    ?_ ?_ ?_ (h.earned.backed.resubscribe ..) ?_
  · intro e he
    exact h.earned.epoch e (hsent ▸ he)
  · intro n hn
    exact h.earned.pendingAck n (hpending ▸ hn)
  · intro hbase
    rcases hcases with ⟨_, _, hnone⟩ | ⟨hclaimed, hsentEpoch, hacked⟩
    · exact absurd hnone hbase
    · -- a claim that is honoured is one the client made
      have hnum : r.knownStateNum ≠ 0 := by
        intro hzero
        simp [SyncLadder.claimed, hzero] at hclaimed
      have hheld := hhonest (h.earned.epoch _ hsentEpoch) hnum
      show c.Held (c.inner.retention.ladder.resubscribe ..).1.ackedStateNum
      rw [hacked]
      exact hheld
  · show (c.inner.retention.ladder.resubscribe ..).1.nextSlot ≠ noSlot
    rw [hkeeps.nextSlot]
    exact h.earned.slot

theorem Inv.applyPendingAck (hpump : c.pump = .resubscribed inbox) : ({ c with
        pump := .acked inbox
        inner := { c.inner with retention := c.inner.retention.applyPendingAck } } :
      WorkspaceChannel).Inv := by
  obtain ⟨hpending, hsent, hcases⟩ := c.inner.retention.ladder.applyPendingAck_cases
  have hkeeps := keeps_applyPendingAck c.inner.retention.ladder
  refine h.turn (fun o ho => by rw [hpump]; exact ho) (fun o ho => by rw [hpump]; exact ho)
    (by rw [hpump]; rfl) rfl (fun _ hr => by contradiction) (fun _ hp => by contradiction) rfl rfl
    ?_ ?_ ?_ h.earned.backed.applyPendingAck ?_
  · intro e he
    exact h.earned.epoch e (hsent ▸ he)
  · intro n hn
    exact absurd (hpending.symm.trans hn) (by simp)
  · intro hbase
    show c.Held c.inner.retention.ladder.applyPendingAck.1.ackedStateNum
    rcases hcases with ⟨hsame, hacked⟩ | hacked
    · rw [hacked]
      exact h.earned.base (hsame ▸ hbase)
    · exact h.earned.pendingAck _ hacked
  · show c.inner.retention.ladder.applyPendingAck.1.nextSlot ≠ noSlot
    rw [hkeeps.nextSlot]
    exact h.earned.slot

/-- A planned frame fits: no epoch but the document's was ever sent, and a
base is one the client held. -/
theorem right_plan (ho : o.Genuine c.document) (hne : (c.inner.retention.plan o.epoch).1 ≠ .hold) :
    c.Right (c.inner.retention.plan o.epoch).1 := by
  by_cases hfree : c.inner.retention.ladder.outstanding.isSome
  case pos =>
    rw [(Retention.plan_hold hfree o.epoch).1] at hne
    exact absurd rfl hne
  case neg =>
    have hreset := Retention.resets_plan hfree o.epoch
    have hsame : c.inner.retention.ladder.resetFirst o.epoch = false := by
      grind [SyncLadder.resetFirst, h.earned.epoch, ho.epoch]
    rw [hsame] at hreset
    cases hplan : (c.inner.retention.plan o.epoch).1 with
    | hold => exact absurd hplan hne
    | snapshot resetFirst =>
      rw [hplan] at hreset
      cases resetFirst with
      | true => simp [Planned.resets] at hreset
      | false => rfl
    | diff base state =>
      obtain ⟨slot, hslot, rfl, hheld, _⟩ := Retention.plan_diff (Prod.ext hplan rfl)
      exact ⟨h.earned.backed.base slot state hslot hheld, h.earned.base (by simp [hslot])⟩

theorem Inv.plan (hpump : c.pump = .sending loose inbox didSend) (ho : inbox.offer = some o) :
    (c.plan o didSend).Inv := by
  have hinHand : c.pump.offer = some o := by rw [hpump]; exact ho
  have hpeeked : c.pump.peeked = some o := by rw [hpump]; exact ho
  have hfree : c.pump.unsent = none := by rw [hpump]; rfl
  have hgenuine := h.offered.inHand o hinHand
  -- what the ladder is after the call, whatever it answered
  have hladder : ∀ pump : Pump, (∀ o', pump.offer = some o' → o' = o) →
      (∀ o', pump.peeked = some o' → o' = o) → pump.unsent = none → pump.request = none →
      (∀ p, pump.frame = some p → c.Right p) →
      ({ c with pump, inner := { c.inner with
          retention := (c.inner.retention.plan o.epoch).2 } } : WorkspaceChannel).Inv := by
    intro pump hoffer hpeek hunsent hrequest hplanned
    have hofferOld : ∀ o', pump.offer = some o' → c.pump.offer = some o' := fun o' ho' => by
      rw [hoffer o' ho', hinHand]
    have hpeekOld : ∀ o', pump.peeked = some o' → c.pump.peeked = some o' := fun o' ho' => by
      rw [hpeek o' ho', hpeeked]
    have hnone : ∀ r, pump.request = some r → c.pump.request = some r := fun r hr => by
      rw [hrequest] at hr
      contradiction
    by_cases houtstanding : c.inner.retention.ladder.outstanding.isSome
    case pos =>
      rw [(Retention.plan_hold houtstanding o.epoch).1]
      exact h.turn hofferOld hpeekOld hfree hunsent hnone hplanned rfl rfl h.earned.epoch
        h.earned.pendingAck h.earned.base h.earned.backed h.earned.slot
    case neg =>
      have hbacked := h.earned.backed.plan o.epoch
      rw [(Retention.plan_send houtstanding o.epoch).1] at hbacked ⊢
      obtain ⟨hpending, hsent, hcases⟩ := c.inner.retention.ladder.enterEpoch_cases o.epoch
      refine h.turn hofferOld hpeekOld hfree hunsent hnone hplanned rfl rfl ?_ ?_ ?_ hbacked ?_
      · grind [hgenuine.epoch]
      · intro n hn
        exact h.earned.pendingAck n (hpending ▸ hn)
      · intro hbase
        rcases hcases with ⟨_, _, hgone, _⟩ | ⟨_, heq⟩
        · exact absurd hgone hbase
        · rw [heq] at hbase ⊢
          exact h.earned.base hbase
      · rw [(keeps_enterEpoch ..).nextSlot]
        exact h.earned.slot
  have hframe : ∀ p, (c.inner.retention.plan o.epoch).1 = p → p ≠ .hold → c.Right p := fun p hp hne =>
    hp ▸ right_plan h hgenuine (hp.symm ▸ hne)
  cases hplan : (c.inner.retention.plan o.epoch).1 with
  | hold =>
    simp only [WorkspaceChannel.plan, hplan, WorkspaceChannel.finish]
    cases didSend <;>
      exact hladder _ (fun _ h => by contradiction) (fun _ h => by contradiction) rfl rfl
        (fun _ h => by contradiction)
  | snapshot resetFirst =>
    simp only [WorkspaceChannel.plan, hplan]
    exact hladder (.planned o _) (fun o' ho' => (Option.some.inj ho').symm)
      (fun o' ho' => (Option.some.inj ho').symm) rfl rfl
      fun p hp => Option.some.inj hp ▸ hframe _ hplan (by simp)
  | diff base state =>
    simp only [WorkspaceChannel.plan, hplan]
    exact hladder (.planned o _) (fun o' ho' => (Option.some.inj ho').symm)
      (fun o' ho' => (Option.some.inj ho').symm) rfl rfl
      fun p hp => Option.some.inj hp ▸ hframe _ hplan (by simp)

theorem Inv.sendLoose (hf : IsLoose f) : ({ c with link := c.link ++ [f] } : WorkspaceChannel).Inv where
  offered := { h.offered with }
  ordered := {
    follows := h.ordered.follows
    carries := fun g hg => by
      rcases List.mem_append.mp hg with hold | hnew
      · exact h.ordered.carries g hold
      · rw [List.mem_singleton.mp hnew]
        exact .loose f hf
    ascending := by
      refine List.pairwise_append.mpr ⟨h.ordered.ascending, by simp, ?_⟩
      intro g _ g' hg' _ hdocument
      rw [List.mem_singleton.mp hg'] at hdocument
      exact absurd hdocument hf.not_document
    ahead := fun hepoch g hg hdocument => by
      rcases List.mem_append.mp hg with hold | hnew
      · exact h.ordered.ahead hepoch g hold hdocument
      · rw [List.mem_singleton.mp hnew] at hdocument
        exact absurd hdocument hf.not_document
    within := fun o ho => by
      refine ⟨(h.ordered.within o ho).1, fun g hg hdocument => ?_⟩
      rcases List.mem_append.mp hg with hold | hnew
      · exact (h.ordered.within o ho).2 g hold hdocument
      · rw [List.mem_singleton.mp hnew] at hdocument
        exact absurd hdocument hf.not_document }
  earned := { h.earned with }
  arriving := by
    rcases h.arriving with hpending | hhandler | hasks | hunsent | hreaches
    · exact .inl hpending
    · exact .inr (.inl hhandler)
    · exact .inr (.inr (.inl hasks))
    · exact .inr (.inr (.inr (.inl hunsent)))
    · exact .inr (.inr (.inr (.inr (hreaches.loose hf))))

theorem Inv.sendInbox
    (hpump : c.pump = .sending loose inbox didSend) : (c.sendInbox loose inbox didSend).Inv := by
  have hfree : c.pump.unsent = none := by rw [hpump]; rfl
  unfold WorkspaceChannel.sendInbox
  split
  case h_1 _ _ _ result results _ =>
    have hmoved := @Inv.move c h (.sending loose { inbox with results } true)
      (fun o ho => by rw [hpump]; exact ho) (fun o ho => by rw [hpump]; exact ho) hfree rfl
      (fun _ hr => by contradiction) rfl
    exact hmoved.sendLoose (f := ⟨3, loose, 0, 0, result.encode⟩) (.inr rfl)
  case h_2 _ _ _ roster _ _ =>
    have hmoved := @Inv.move c h (.sending loose { inbox with roster := none } true)
      (fun o ho => by rw [hpump]; exact ho) (fun o ho => by rw [hpump]; exact ho) hfree rfl
      (fun _ hr => by contradiction) rfl
    exact hmoved.sendLoose (f := ⟨2, loose, 0, 0, roster⟩) (.inl rfl)
  case h_3 o _ _ ho => exact h.plan hpump ho
  case h_4 => exact h.finish hfree didSend

theorem Inv.claim (hpump : c.pump = .planned o planned)
    (hsame : (c.inner.pendingState.all fun o' => o'.stateNum = o.stateNum) = true) :
    ({ c with pump := .claimed o planned, inner := c.inner.claimPendingState } :
      WorkspaceChannel).Inv where
  offered := {
    caps := h.offered.caps
    pending := fun _ ho => by contradiction
    inHand := fun o' ho' => h.offered.inHand o' (by rw [hpump]; exact ho')
    peeked := fun _ ho => by contradiction
    unsent := fun o' ho' => by
      obtain rfl : o = o' := Option.some.inj ho'
      obtain ⟨pending, hpending⟩ := Option.ne_none_iff_exists'.mp
        (h.offered.peeked o (by rw [hpump]; rfl))
      have hnum : pending.stateNum = o.stateNum := by simpa [hpending] using hsame
      rw [h.offered.pending pending hpending] at hnum
      exact .inl ((h.offered.inHand o (by rw [hpump]; rfl)).eq_offer hnum.symm) }
  ordered := ⟨h.ordered.follows, h.ordered.carries, h.ordered.ascending, h.ordered.ahead,
    fun o' ho' => h.ordered.within o' (by rw [hpump]; exact ho')⟩
  earned := ⟨h.earned.epoch, h.earned.acks, h.earned.pendingAck, h.earned.requests,
    h.earned.pendingSubscribe, fun _ hr => by contradiction, h.earned.base, h.earned.backed,
    h.earned.slot, fun p hp => h.earned.planned p (by rw [hpump]; exact hp)⟩
  arriving := .inr (.inr (.inr (.inl (by simp [Pump.unsent]))))

end

/-- A frame under the newest number takes a client of the document to the
newest state, unless it asks for the document again. -/
theorem reaches_newest {d : WorkspaceDocument}
    (hcaps : d.WithinCaps) (hf : Carries d f) (hdocument : IsDocument f)
    (hnum : f.newStateNum = d.stateNum) (hfollows : Follows d client.mirror) :
    Reaches d.state client [f] := by
  have hnewest : ∀ s, d.named d.stateNum = some s → s = d.state := fun s hs =>
    (Option.some.inj (d.named_stateNum.symm.trans hs)).symm
  rcases handle_cases hcaps hf hfollows with
    ⟨hsame, _, hpast⟩ | ⟨_, _, hasks⟩ | ⟨_, _, s, hnamed, hholds⟩
  · obtain ⟨hepoch, hle⟩ := hpast hdocument
    have hheld := hfollows hepoch
    have heq : client.mirror.stateNum = d.stateNum :=
      Int.le_antisymm (WorkspaceDocument.named_le hheld) (hnum ▸ hle)
    rw [heq] at hheld
    exact .inr (hsame.entries.trans (hnewest _ hheld))
  · exact .inl ⟨_, by rw [hasks]; exact List.mem_singleton.mpr rfl⟩
  · rw [hnum] at hnamed
    exact .inr (hholds.entries.trans (hnewest _ hnamed))

theorem Inv.ship (h : c.Inv)
    (hpump : c.pump = .claimed o planned) (hf : Carries c.document f) (hdocument : IsDocument f)
    (hnum : f.newStateNum = o.stateNum) :
    ({ c with pump := .shipped o, link := c.link ++ [f] } : WorkspaceChannel).Inv := by
  have hinHand : c.pump.offer = some o := by rw [hpump]; rfl
  have hwithin := h.ordered.within o hinHand
  refine {
    offered := ⟨h.offered.caps, h.offered.pending, fun o' ho' => h.offered.inHand o'
      (by rw [hinHand]; exact ho'), fun _ ho => by contradiction, fun _ ho => by contradiction⟩
    ordered := {
      follows := h.ordered.follows
      carries := ?_
      ascending := ?_
      ahead := ?_
      within := ?_ }
    earned := ⟨h.earned.epoch, h.earned.acks, h.earned.pendingAck, h.earned.requests,
      h.earned.pendingSubscribe, fun _ hr => by contradiction, h.earned.base, h.earned.backed,
      h.earned.slot, fun _ hp => by contradiction⟩
    arriving := ?_ }
  · intro g hg
    rcases List.mem_append.mp hg with hold | hnew
    · exact h.ordered.carries g hold
    · rwa [List.mem_singleton.mp hnew]
  · refine List.pairwise_append.mpr ⟨h.ordered.ascending, by simp, ?_⟩
    intro g hg g' hg' hgdocument _
    rw [List.mem_singleton.mp hg', hnum]
    exact hwithin.2 g hg hgdocument
  · intro hepoch g hg hgdocument
    rcases List.mem_append.mp hg with hold | hnew
    · exact h.ordered.ahead hepoch g hold hgdocument
    · rw [List.mem_singleton.mp hnew, hnum]
      exact hwithin.1 hepoch
  · intro o' ho'
    obtain rfl : o = o' := Option.some.inj ho'
    refine ⟨hwithin.1, fun g hg hgdocument => ?_⟩
    rcases List.mem_append.mp hg with hold | hnew
    · exact hwithin.2 g hold hgdocument
    · grind
  · rcases h.offered.unsent o (by rw [hpump]; rfl) with hnewest | hpending
    · have hreach : ∀ client : Client, Follows c.document client.mirror →
          Reaches c.document.state client [f] := fun client hfollows =>
        reaches_newest h.offered.caps hf hdocument (by rw [hnum, hnewest]; rfl) hfollows
      have hall := reaches_append (fun client => Follows c.document client.mirror)
        (fun client g hg hfollows => follows_handle h.offered.caps (h.ordered.carries g hg) hfollows)
        hreach h.ordered.follows
      exact .inr (.inr (.inr (.inr hall)))
    · exact .inl hpending

/-- An empty diff against a state the client is not taken past: what it holds
at the end of the link is that state. -/
theorem Inv.suppress (h : c.Inv) {base : Int} {state : HostWorkspaceState}
    (hpump : c.pump = .claimed o (.diff base state))
    (hempty : (o.state.diffFrom state).isEmpty = true) (hwithin : c.Within base) :
    ({ c with pump := .draining } : WorkspaceChannel).Inv := by
  obtain ⟨hnamed, hepoch, hle⟩ := h.earned.planned (.diff base state) (by rw [hpump]; rfl)
  refine {
    offered := ⟨h.offered.caps, h.offered.pending, fun _ ho => by contradiction,
      fun _ ho => by contradiction, fun _ ho => by contradiction⟩
    ordered := ⟨h.ordered.follows, h.ordered.carries, h.ordered.ascending, h.ordered.ahead,
      fun _ ho => by contradiction⟩
    earned := ⟨h.earned.epoch, h.earned.acks, h.earned.pendingAck, h.earned.requests,
      h.earned.pendingSubscribe, fun _ hr => by contradiction, h.earned.base, h.earned.backed,
      h.earned.slot, fun _ hp => by contradiction⟩
    arriving := ?_ }
  rcases h.offered.unsent o (by rw [hpump]; rfl) with hnewest | hpending
  case inr => exact .inl hpending
  case inl =>
    have hnum : c.client.mirror.stateNum = base := Int.le_antisymm (hwithin.1 hepoch) hle
    have hstate : c.document.state = state := by
      rw [eq_of_diffFrom_isEmpty hempty, hnewest]
      rfl
    -- every document frame on the link is of the base itself
    have hkeep : ∀ client : Client, ∀ f ∈ c.link,
        (Follows c.document client.mirror ∧ client.mirror.epoch = some c.document.epoch ∧
          client.mirror.stateNum = base) →
        (Follows c.document (client.handle f).1.mirror ∧
          (client.handle f).1.mirror.epoch = some c.document.epoch ∧
          (client.handle f).1.mirror.stateNum = base) := by
      rintro client f hf ⟨hfollows, hclient, hbase⟩
      have hcarries := h.ordered.carries f hf
      refine ⟨follows_handle h.offered.caps hcarries hfollows, ?_⟩
      rcases handle_cases h.offered.caps hcarries hfollows with
        ⟨hsame, _⟩ | ⟨_, hself, _⟩ | ⟨hdocument, _, s, _, hholds⟩
      · rw [hsame.epoch, hsame.stateNum]
        exact ⟨hclient, hbase⟩
      · rw [hself]
        exact ⟨hclient, hbase⟩
      · have hahead := h.ordered.ahead hepoch f hf hdocument
        refine ⟨hholds.epoch, ?_⟩
        rw [hholds.stateNum]
        exact Int.le_antisymm (hwithin.2 f hf hdocument) (hnum ▸ hahead)
    have hend : ∀ client : Client,
        (Follows c.document client.mirror ∧ client.mirror.epoch = some c.document.epoch ∧
          client.mirror.stateNum = base) → Reaches c.document.state client [] := by
      rintro client ⟨hfollows, hclient, hbase⟩
      have hheld := hfollows hclient
      rw [hbase, hnamed] at hheld
      exact (Option.some.inj hheld).symm.trans hstate.symm
    have hall := reaches_append _ hkeep hend ⟨h.ordered.follows, hepoch, hnum⟩
    rw [List.append_nil] at hall
    exact .inr (.inr (.inr (.inr hall)))

theorem Inv.sendDocument (h : c.Inv) (hpump : c.pump = .claimed o planned)
    (hsettled : ∀ base state, planned = .diff base state →
      (o.state.diffFrom state).isEmpty = true → c.Within base) :
    (c.sendDocument o planned).Inv := by
  have hgenuine := h.offered.inHand o (by rw [hpump]; rfl)
  have hright := h.earned.planned planned (by rw [hpump]; rfl)
  cases planned with
  | hold => exact absurd hright id
  | snapshot resetFirst =>
    obtain rfl : resetFirst = false := hright
    exact h.ship hpump (.snapshot o hgenuine) (.inl rfl) rfl
  | diff base state =>
    simp only [WorkspaceChannel.sendDocument]
    split
    case isTrue hempty => exact h.suppress hpump hempty (hsettled base state rfl hempty)
    case isFalse => exact h.ship hpump (.diff o hgenuine base state hright.1) (.inr rfl) rfl

theorem Inv.commit (h : c.Inv) (hpump : c.pump = .shipped o)
    (hfresh : c.inner.retention.ladder.nextSlot ∉ c.inner.retention.ladder.reachable) :
    ({ c with
        pump := .draining
        inner := { c.inner with retention := c.inner.retention.commit o.stateNum o.state } } :
      WorkspaceChannel).Inv := by
  have hgenuine := h.offered.inHand o (by rw [hpump]; rfl)
  refine h.turn (fun _ ho => by contradiction) (fun _ ho => by contradiction) (by rw [hpump]; rfl) rfl
    (fun _ hr => by contradiction) (fun _ hp => by contradiction) rfl rfl ?_ ?_ ?_
    (h.earned.backed.commit hgenuine.named hfresh h.earned.slot) ?_
  · exact h.earned.epoch
  · exact h.earned.pendingAck
  · exact h.earned.base
  · exact nextSlot_commit_ne c.inner.retention.ladder o.stateNum

theorem Inv.pumpStep (h : c.Inv) (hok : c.LosesNothing c.pump) : c.pumpStep.Inv := by
  unfold WorkspaceChannel.pumpStep
  split
  case h_1 hpump =>
    split
    case isTrue => exact h.take (by rw [hpump]; rfl)
    case isFalse => exact h
  case h_2 hpump => exact h.take (by rw [hpump]; rfl)
  case h_3 inbox hpump =>
    cases hr : inbox.subscribe with
    | some r => exact h.applyResubscribe hpump hr
    | none =>
      exact h.move (fun o ho => by rw [hpump]; exact ho) (fun o ho => by rw [hpump]; exact ho)
        (by rw [hpump]; rfl) rfl (fun _ hr => by contradiction) rfl
  case h_4 inbox hpump => exact h.applyPendingAck hpump
  case h_5 inbox hpump =>
    exact h.move (fun o ho => by rw [hpump]; exact ho) (fun o ho => by rw [hpump]; exact ho)
      (by rw [hpump]; rfl) rfl (fun _ hr => by contradiction) rfl
  case h_6 loose inbox didSend hpump => exact h.sendInbox hpump
  case h_7 o planned hpump =>
    rw [hpump] at hok
    exact h.claim hpump hok
  case h_8 o planned hpump =>
    refine h.sendDocument hpump fun base state hdiff hempty => ?_
    rw [hpump, hdiff] at hok
    exact hok hempty
  case h_9 o hpump =>
    rw [hpump] at hok
    exact h.commit hpump hok

theorem Inv.step (h : c.Inv) (op : ChannelOp) (hok : c.Undisturbed op) : (c.step op).Inv := by
  cases op with
  | offer next => exact h.bump hok
  | deliverRoster roster =>
    exact h.alike ⟨rfl, rfl, .inl rfl, rfl, rfl, rfl, rfl, fun _ hn => hn, fun _ => .rfl, .refl _⟩
  | deliverResult result =>
    exact h.alike ⟨rfl, rfl, .inl rfl, rfl, rfl, rfl, rfl, fun _ hn => hn, fun _ => .rfl, .refl _⟩
  | hear status => exact h.hear status
  | reply => exact h.reply
  | pump => exact h.pumpStep hok
  | receive => exact h.receive
  | sendSubscribe => exact h.sendSubscribe
  | stage proposed intent issuedAt => exact h.stage proposed intent issuedAt
  | sendIntent => exact h.sendIntent
  | expirePending now timeout =>
    exact h.alike ⟨rfl, rfl, .inl rfl, rfl, rfl, rfl, rfl, fun _ hn => hn, fun _ => .rfl,
      ⟨rfl, rfl, rfl⟩⟩

/-! ## §4 Over a run -/

theorem inv_start {document : WorkspaceDocument} (hcaps : document.WithinCaps)
    (hfollows : Follows document client.mirror) : (start document client).Inv where
  offered := {
    caps := hcaps
    pending := fun o ho => (Option.some.inj ho).symm
    inHand := fun o ho => by contradiction
    peeked := fun o ho => by contradiction
    unsent := fun o ho => by contradiction }
  ordered := {
    follows := hfollows
    carries := fun f hf => absurd hf List.not_mem_nil
    ascending := .nil
    ahead := fun _ f hf => absurd hf List.not_mem_nil
    within := fun o ho => by contradiction }
  earned := {
    epoch := fun e he => by contradiction
    acks := fun n hn => absurd hn List.not_mem_nil
    pendingAck := fun n hn => by contradiction
    requests := fun r hr => absurd hr List.not_mem_nil
    pendingSubscribe := fun r hr => by contradiction
    request := fun r hr => by contradiction
    base := fun hbase => absurd rfl hbase
    backed := ⟨fun e he => absurd he List.not_mem_nil, fun slot p hslot => by contradiction⟩
    slot := by simp +decide [start, Inner.new, Inner.deliverState, Retention.new, SyncLadder.new]
    planned := fun p hp => by contradiction }
  arriving := .inl (by simp [start, Inner.deliverState])

/-- Nothing is left to do: the pump is parked on an empty inbox, no request
is half handled, and every frame and every ack was delivered and applied. -/
def Quiescent (c : WorkspaceChannel) : Prop :=
  c.pump.isParked = true ∧ c.inner.hasWork = false ∧ c.handler = .idle ∧ c.link = [] ∧
  c.uplink = [] ∧ c.inner.retention.ladder.pendingAck = none

instance (c : WorkspaceChannel) : Decidable c.Quiescent := inferInstanceAs (Decidable (_ ∧ _))

theorem Inv.newest_of_quiescent (h : c.Inv) (hquiet : c.Quiescent) :
    c.client.mirror.entries = c.document.state := by
  obtain ⟨hparked, hwork, hidle, hlink, huplink, _⟩ := hquiet
  have hnone : c.inner.pendingState = none := by
    simp only [Inner.hasWork, Bool.or_eq_false_iff] at hwork
    simpa using hwork.1.1.1
  rcases h.arriving with hpending | hhandler | ⟨r, hr⟩ | hunsent | hreaches
  · exact absurd hnone hpending
  · rw [hidle] at hhandler
    contradiction
  · rw [huplink] at hr
    exact absurd hr List.not_mem_nil
  · cases hpump : c.pump <;> rw [hpump] at hunsent hparked <;> simp_all [Pump.unsent, Pump.isParked]
  · rwa [hlink] at hreaches

/-- In every run of a document's callers, its subscriber's pump, the link and
the client whose steps lose nothing, a client that was a replica of the
document to begin with holds its newest state whenever nothing is left to
do. -/
theorem newest_arrives (document : WorkspaceDocument) (client : Client)
    (hcaps : document.WithinCaps) (hfollows : Follows document client.mirror)
    (ops : List ChannelOp) (hops : Meets step Undisturbed (start document client) ops)
    (hquiet : (run step (start document client) ops).Quiescent) :
    (run step (start document client) ops).client.mirror.entries
      = (run step (start document client) ops).document.state :=
  (hops.invariant Inv (fun _ op hok h => h.step op hok)
    (inv_start hcaps hfollows)).newest_of_quiescent hquiet

/-! ### Two runs that lose one -/

theorem length_sevens : (List.replicate 16 (7 : UInt8)).length = 16 := rfl

def someId : RawUuid := ⟨List.replicate 16 7, length_sevens⟩

/-- A document of one cell. -/
def oneCell (value : UInt8) : HostWorkspaceState := .set .new ⟨3, someId, 1⟩ [value]

/-- A host that has just started. -/
def someDocument : WorkspaceDocument := ⟨someId, [], oneCell 1⟩

/-- A client that has never been spoken to. -/
def someClient : Client := ⟨someId, 0, "", .new, []⟩

def pumps (n : Nat) : List ChannelOp := List.replicate n .pump

/-- An ack is applied by the next drain, which a roster asks for. -/
def settle : List ChannelOp := [.hear 0, .deliverRoster []] ++ pumps 16 ++ [.receive]

theorem newest_arrives_settled :
    (run step (start someDocument someClient) (pumps 16 ++ [.receive] ++ settle)).client.mirror.entries
      = (run step (start someDocument someClient)
          (pumps 16 ++ [.receive] ++ settle)).document.state :=
  newest_arrives someDocument someClient (by unfold WorkspaceDocument.WithinCaps; decide +kernel)
    (fun hepoch => by contradiction) _ (by decide +kernel) (by decide +kernel)

/-- A second state is offered between the peek and the claim, and wiped. -/
def offeredMeanwhile : List ChannelOp :=
  pumps 5 ++ [.offer (oneCell 2)] ++ pumps 16 ++ [.receive] ++ settle

/-- A snapshot is sent twice, and its second ack ends the hold on the frame
after it; the document is then set back to what was acked. -/
def ackedTwice : List ChannelOp :=
  pumps 16 ++ [.sendSubscribe, .hear 0, .reply] ++ pumps 16 ++ [.receive, .receive] ++ settle
    ++ [.offer (oneCell 2)] ++ pumps 16 ++ [.hear 0, .offer (oneCell 1)] ++ pumps 16 ++ [.receive]
    ++ settle

/-- Either leaves a client with a state the host has left, and nothing to
do. -/
theorem newest_lost :
    ((run step (start someDocument someClient) offeredMeanwhile).Quiescent ∧
      (run step (start someDocument someClient) offeredMeanwhile).client.mirror.entries
        ≠ (run step (start someDocument someClient) offeredMeanwhile).document.state) ∧
    ((run step (start someDocument someClient) ackedTwice).Quiescent ∧
      (run step (start someDocument someClient) ackedTwice).client.mirror.entries
        ≠ (run step (start someDocument someClient) ackedTwice).document.state) := by
  have hget : ∀ ops, ((run step (start someDocument someClient) ops).client.mirror.entries.get
        ⟨3, someId, 1⟩ ≠ (run step (start someDocument someClient) ops).document.state.get
        ⟨3, someId, 1⟩) →
      (run step (start someDocument someClient) ops).client.mirror.entries
        ≠ (run step (start someDocument someClient) ops).document.state :=
    fun ops hne heq => hne (congrArg (HostWorkspaceState.get · ⟨3, someId, 1⟩) heq)
  exact ⟨⟨by decide +kernel, hget offeredMeanwhile (by decide +kernel)⟩,
    ⟨by decide +kernel, hget ackedTwice (by decide +kernel)⟩⟩

end WorkspaceChannel

end SlopDesk.HostServer
