/-
SlopDesk.HostServer.ConvergenceTheorems — clients whose edits were all
answered show the host's topology.

A patch the host confirmed stands until the next document frame is folded
in. §1 has what a result and a frame do to the patches, §2 the frames that
are still to be folded in, §3 the invariant of one channel: every patch is
still to be answered, or was confirmed and agrees with the document or has a
frame coming that retires it. §4 carries it over the steps, and §5 from one
channel to all channels of a workspace.
-/
import SlopDesk.HostServer.SubscriberTheorems
import SlopDesk.HostServer.WriteTopology
import SlopDesk.Wire.CodecTheorems

namespace SlopDesk.HostServer

open SlopDesk.Base
open SlopDesk.Base.Parser
open SlopDesk.Document
open SlopDesk.Wire

variable {m : WorkspaceMirror} {f : DocumentFrame}

/-! ## §1 Patches -/

theorem decode_encode_result (r : WorkspaceIntentResult) :
    WorkspaceIntentResult.decode r.encode = .ok r := by
  have hread : ReadsRest WorkspaceIntentResult.read (r.intentId.bytes ++ ([r.status] ++ [])) r :=
    Reads.bindRest (reads_readUuid r.intentId)
      (Reads.bindRest (reads_readU8 r.status) (readsRest_pure _))
  have hencode : r.encode = r.intentId.bytes ++ ([r.status] ++ []) := by
    rfl
  rw [hencode, WorkspaceIntentResult.decode, run_of_readsRest hread]
  rfl

/-- The answer a frame carries. -/
def resultOf (f : DocumentFrame) : Option WorkspaceIntentResult :=
  if f.kind = WorkspaceEventKind.intentResult.asByte then
    match WorkspaceIntentResult.decode f.payload with
    | .ok r => some r
    | _ => none
  else none

/-- What a result leaves of patches with distinct ids: the others, and its
own if it was applied. -/
theorem pending_noteIntentResult
    (hdistinct : (m.pending.map PendingPatch.intentId).Nodup) (intentId : RawUuid) (applied : Bool)
    {patch : PendingPatch} (hpatch : patch ∈ (m.noteIntentResult intentId applied).2.pending) :
    (patch ∈ m.pending ∧ patch.intentId ≠ intentId) ∨
    (applied = true ∧ ∃ old ∈ m.pending, old.intentId = intentId ∧
      patch = { old with retireAtFrame := some m.retireFrame }) := by
  have hother : ∀ i j (hi : i < m.pending.length) (hj : j < m.pending.length), i ≠ j →
      m.pending[i].intentId = intentId → m.pending[j].intentId ≠ intentId := by
    intro i j hi hj hne hid heq
    have hlength : (m.pending.map PendingPatch.intentId).length = m.pending.length := List.length_map ..
    have hinj := @List.Nodup.getElem_inj_iff _ _ hdistinct i (hlength ▸ hi) j (hlength ▸ hj)
    refine hne (hinj.mp ?_)
    simp [hid, heq]
  unfold WorkspaceMirror.noteIntentResult at hpatch
  split at hpatch
  case h_1 hnone =>
    grind
  case h_2 index hsome =>
    obtain ⟨hlt, hid, _⟩ := List.findIdx?_eq_some_iff_getElem.mp hsome
    have hindex : m.pending[index].intentId = intentId := by simpa using hid
    split at hpatch
    case isTrue happlied =>
      obtain ⟨j, hj, rfl⟩ := List.mem_iff_getElem.mp hpatch
      have hjlt : j < m.pending.length := by simpa using hj
      rw [List.getElem_modify]
      split
      case isTrue heq =>
        grind
      case isFalse hne =>
        exact .inl ⟨List.getElem_mem hjlt, hother index j hlt hjlt hne hindex⟩
    case isFalse =>
      obtain ⟨j, hj, rfl⟩ := List.mem_iff_getElem.mp hpatch
      rw [List.getElem_eraseIdx]
      have hlength : j < m.pending.length - 1 := by simpa [List.length_eraseIdx, hlt] using hj
      split
      case isTrue hbefore =>
        exact .inl ⟨List.getElem_mem _, hother index j hlt (by omega) (by omega) hindex⟩
      case isFalse hafter =>
        exact .inl ⟨List.getElem_mem _, hother index (j + 1) hlt (by omega) (by omega) hindex⟩

theorem ids_noteIntentResult
    (hdistinct : (m.pending.map PendingPatch.intentId).Nodup) (intentId : RawUuid) (applied : Bool) :
    ((m.noteIntentResult intentId applied).2.pending.map PendingPatch.intentId).Nodup := by
  unfold WorkspaceMirror.noteIntentResult
  split
  case h_1 => exact hdistinct
  case h_2 index _ =>
    split
    case isTrue =>
      have hids : (m.pending.modify index fun patch =>
          { patch with retireAtFrame := some m.retireFrame }).map PendingPatch.intentId
          = m.pending.map PendingPatch.intentId := by
        refine List.ext_getElem (by simp) fun j hj hj' => ?_
        simp only [List.getElem_map, List.getElem_modify]
        split <;> rfl
      rw [hids]
      exact hdistinct
    case isFalse => exact hdistinct.sublist ((List.eraseIdx_sublist ..).map _)

theorem framesApplied_retireFastPath (m : WorkspaceMirror) (supplied : List WorkspaceKey) :
    (m.retireFastPath supplied).framesApplied = m.framesApplied := by
  unfold WorkspaceMirror.retireFastPath
  split <;> rfl

/-- A frame folds in and retires what was due, or it is a reset, or nothing
happened. -/
theorem apply_retires (m : WorkspaceMirror) (kind : UInt8) (epoch : RawUuid) (base new : Int)
    (payload : List UInt8) :
    ((∃ n, (m.apply kind epoch base new payload).1 = .applied n) ∧
      (m.apply kind epoch base new payload).2.pending.Sublist m.pending ∧
      ∀ patch ∈ (m.apply kind epoch base new payload).2.pending, ∀ frame,
        patch.retireAtFrame = some frame → m.framesApplied + 1 < frame) ∨
    kind = 4 ∨
    ((m.apply kind epoch base new payload).1.Refused ∧
      (m.apply kind epoch base new payload).2 = m) := by
  have hfiltered : ∀ (m' : WorkspaceMirror) (supplied : List WorkspaceKey), m'.pending = m.pending →
      m'.framesApplied = m.framesApplied →
      ((m'.retireFastPath supplied).noteDocumentFrame).pending.Sublist m.pending ∧
      ∀ patch ∈ ((m'.retireFastPath supplied).noteDocumentFrame).pending, ∀ frame,
        patch.retireAtFrame = some frame → m.framesApplied + 1 < frame := by
    intro m' supplied hpending hframes
    refine ⟨?_, fun patch hpatch frame hframe => ?_⟩
    · rw [← hpending, ← WorkspaceMirror.pending_retireFastPath m' supplied]
      exact List.filter_sublist
    · have hkept := (List.mem_filter.mp hpatch).2
      rw [hframe, framesApplied_retireFastPath, hframes] at hkept
      simpa using hkept
  unfold WorkspaceMirror.apply
  split
  case h_1 =>
    unfold WorkspaceMirror.applySnapshot
    cases decodeSnapshot payload with
    | ok decoded => exact .inl ⟨⟨new, rfl⟩, hfiltered _ _ rfl rfl⟩
    | fault e => exact .inr (.inr ⟨trivial, rfl⟩)
    | panicked => exact .inr (.inr ⟨trivial, rfl⟩)
  case h_2 =>
    unfold WorkspaceMirror.applyDiff
    split
    case isTrue => exact .inr (.inr ⟨trivial, rfl⟩)
    case isFalse =>
      split
      case isTrue => exact .inr (.inr ⟨trivial, rfl⟩)
      case isFalse =>
        split
        case isTrue => exact .inr (.inr ⟨trivial, rfl⟩)
        case isFalse =>
          cases decodeDiff payload with
          | ok diff => exact .inl ⟨⟨new, rfl⟩, hfiltered _ _ rfl rfl⟩
          | fault e => exact .inr (.inr ⟨trivial, rfl⟩)
          | panicked => exact .inr (.inr ⟨trivial, rfl⟩)
  case h_3 => exact .inr (.inl rfl)
  case h_4 => exact .inr (.inr ⟨trivial, rfl⟩)

theorem framesApplied_noteIntentResult (m : WorkspaceMirror) (intentId : RawUuid) (applied : Bool) :
    (m.noteIntentResult intentId applied).2.framesApplied = m.framesApplied := by
  unfold WorkspaceMirror.noteIntentResult
  split
  case h_1 => rfl
  case h_2 => split <;> rfl

theorem toNat_succ_lt {n : UInt64} (h : n ≠ 0xFFFFFFFFFFFFFFFF) :
    n.toNat + (1 : UInt64).toNat < 18446744073709551616 := by
  have hlt := n.toNat_lt
  have hne : n.toNat ≠ 18446744073709551615 := fun heq => h (UInt64.toNat_inj.mp heq)
  have hone : (1 : UInt64).toNat = 1 := rfl
  omega

theorem toNat_retireFrame_le (m : WorkspaceMirror) : m.retireFrame.toNat ≤ m.framesApplied.toNat + 1 := by
  unfold WorkspaceMirror.retireFrame
  split
  case isTrue => exact Nat.le_succ _
  case isFalse h =>
    rw [UInt64.toNat_add, Nat.mod_eq_of_lt (toNat_succ_lt h)]
    rfl

/-- A patch that would change nothing. -/
def Agrees (patch : PendingPatch) (state : HostWorkspaceState) : Prop := patch.overlay state = state

instance (patch : PendingPatch) (state : HostWorkspaceState) : Decidable (Agrees patch state) :=
  inferInstanceAs (Decidable (_ = _))

theorem get_resolved_of_agrees (h : ∀ patch ∈ m.pending, Agrees patch m.entries)
    {key : WorkspaceKey} (hpush : m.fastPath[key]? = none) : m.resolved.get key = m.entries.get key := by
  have hfold : ∀ (patches : List PendingPatch) (out : HostWorkspaceState),
      (∀ patch ∈ patches, Agrees patch m.entries) → out.get key = m.entries.get key →
      (patches.foldl (fun out patch => patch.overlay out) out).get key = m.entries.get key := by
    intro patches
    induction patches with
    | nil => exact fun _ _ hout => hout
    | cons patch patches ih =>
      intro out hall hout
      refine ih _ (fun p hp => hall p (List.mem_cons_of_mem _ hp)) ?_
      have hself := congrArg (HostWorkspaceState.get · key) (hall patch (List.mem_cons_self ..))
      rw [get_overlay] at hself ⊢
      rw [hout]
      exact hself
  exact hfold m.pending m.underlaid h (by rw [WorkspaceMirror.get_underlaid, hpush, Option.or_none])

theorem carries_kind {d : WorkspaceDocument} (h : Carries d f) : IsLoose f ∨ IsDocument f := by
  cases h with
  | loose _ kind => exact .inl kind
  | snapshot o made => exact .inr (.inl rfl)
  | diff o made base old based => exact .inr (.inr rfl)

theorem resultOf_document (h : IsDocument f) : resultOf f = none := by
  rcases h with hkind | hkind <;> simp +decide [resultOf, hkind]

theorem handle_loose_cases {c : Client} (hf : IsLoose f) : (resultOf f = none ∧ (c.handle f).1 = c) ∨
    ∃ r, resultOf f = some r ∧ (c.handle f).1 = { c with mirror :=
      (c.mirror.noteIntentResult r.intentId (r.status = statusApplied)).2 } := by
  rcases hf with hkind | hkind
  · rw [Client.handle, if_pos hkind]
    exact .inl ⟨by simp +decide [resultOf, hkind], rfl⟩
  · rw [Client.handle, if_neg (by rw [hkind]; decide), if_pos hkind, resultOf, if_pos hkind,
      Client.noteIntentResult]
    cases WorkspaceIntentResult.decode f.payload with
    | ok r => exact .inr ⟨r, rfl, rfl⟩
    | fault e => exact .inl ⟨rfl, rfl⟩
    | panicked => exact .inl ⟨rfl, rfl⟩

/-! ## §2 Frames to be folded in -/

/-- Whether a client that reads `link` answers a frame of it: folds it in, or
asks for the document again. -/
def Folds (c : Client) : List DocumentFrame → Prop
  | [] => False
  | f :: link => (c.handle f).2 ≠ [] ∨ Folds (c.handle f).1 link

instance decidableFolds : (c : Client) → (link : List DocumentFrame) → Decidable (Folds c link)
  | _, [] => .isFalse id
  | c, f :: link =>
    have : Decidable (Folds (c.handle f).1 link) := decidableFolds (c.handle f).1 link
    inferInstanceAs (Decidable (_ ∨ _))

section
variable {c c' : Client} {link : List DocumentFrame}

theorem Folds.congr (h : Folds c link) (htruth : SameTruth c.mirror c'.mirror) : Folds c' link := by
  induction link generalizing c c' with
  | nil => exact h
  | cons f link ih =>
    have hnext := (handle_congr htruth f).1
    rcases h with hanswered | hrest
    · exact .inl fun hnil => hanswered (handle_nil_congr htruth f hnil)
    · exact .inr (ih hrest hnext)

theorem Folds.append (h : Folds c link) (tail : List DocumentFrame) : Folds c (link ++ tail) := by
  induction link generalizing c with
  | nil => exact absurd h id
  | cons f link ih => exact h.imp_right ih

/-- A frame that is news to the client as it is, is answered at the end of
the link, unless one before it is. -/
theorem folds_append_news {d : WorkspaceDocument} (hcaps : d.WithinCaps)
    (hlink : ∀ f ∈ link, Carries d f) (hc : Follows d c.mirror) {f : DocumentFrame}
    (hnews : ∀ c' : Client, SameTruth c.mirror c'.mirror → (c'.handle f).2 ≠ []) :
    Folds c (link ++ [f]) := by
  induction link generalizing c with
  | nil => exact .inl (hnews c (.refl _))
  | cons g link ih =>
    have hg := hlink g (List.mem_cons_self ..)
    rcases handle_cases hcaps hg hc with ⟨hsame, _⟩ | ⟨_, _, hasks⟩ | ⟨_, hack, _⟩
    · refine .inr (ih (fun f hf => hlink f (List.mem_cons_of_mem _ hf)) (hsame.follows hc)
        fun c' htruth => hnews c' ⟨?_, ?_, ?_⟩)
      · rw [htruth.epoch, hsame.epoch]
      · rw [htruth.stateNum, hsame.stateNum]
      · rw [htruth.entries, hsame.entries]
    · exact .inl (by simp [hasks])
    · exact .inl (by simp [hack])

end

/-! ## §3 One channel -/

/-- The intents whose results a pump has in hand. -/
def Pump.results : Pump → List WorkspaceIntentResult
  | .taken inbox | .resubscribed inbox | .acked inbox | .sending _ inbox _ => inbox.results
  | .planned .. | .claimed .. | .shipped _ | .parked | .draining => []

def Handler.results : Handler → List WorkspaceIntentResult
  | .answering result => [result]
  | .idle | .resubscribing => []

namespace WorkspaceRequest

def isSubscribe : WorkspaceRequest → Bool
  | .subscribe _ => true
  | .ack _ | .intent _ => false

def intentId? : WorkspaceRequest → Option RawUuid
  | .intent asked => some asked.intentId
  | .ack _ | .subscribe _ => none

end WorkspaceRequest

namespace WorkspaceChannel

variable {c c' : WorkspaceChannel}
variable {pump : Pump} {f : DocumentFrame} {link : List DocumentFrame} {op : ChannelOp}
variable {document : WorkspaceDocument}

/-- The intents that were staged and not answered, the one answered next
first. -/
def outstanding (c : WorkspaceChannel) : List RawUuid :=
  (c.link.filterMap resultOf ++ c.pump.results ++ c.inner.pendingResults
    ++ c.handler.results).map WorkspaceIntentResult.intentId
    ++ c.uplink.filterMap WorkspaceRequest.intentId? ++ c.client.intentQueue.map WorkspaceIntent.intentId

/-- A document frame is still to be folded in, past what is in the pump's
hand: the client will get one out of `link`, or the pump out of the inbox. -/
def ExpectsOn (c : WorkspaceChannel) (link : List DocumentFrame) : Prop :=
  c.inner.pendingState.isSome = true ∨ c.handler = .resubscribing ∨
  c.uplink.any WorkspaceRequest.isSubscribe = true ∨ Folds c.client link

instance (c : WorkspaceChannel) (link : List DocumentFrame) : Decidable (c.ExpectsOn link) :=
  inferInstanceAs (Decidable (_ ∨ _))

def Expects (c : WorkspaceChannel) : Prop := c.ExpectsOn c.link

instance (c : WorkspaceChannel) : Decidable c.Expects := inferInstanceAs (Decidable (c.ExpectsOn _))

/-- Every confirmed patch agrees with the document. -/
def Settled (c : WorkspaceChannel) : Prop :=
  ∀ patch ∈ c.client.mirror.pending, patch.retireAtFrame.isSome = true →
    Agrees patch c.document.state

instance (c : WorkspaceChannel) : Decidable c.Settled := List.decidableBAll ..

/-- The planned frame goes out, and is news to the client. -/
def Brings (c : WorkspaceChannel) (offer : Offer) : Planned HostWorkspaceState → Prop
  | .hold => False
  | .snapshot _ => True
  | .diff _ base => (offer.state.diffFrom base).isEmpty = false ∧
    (c.client.mirror.epoch = some c.document.epoch → c.client.mirror.stateNum < offer.stateNum)

instance (c : WorkspaceChannel) (offer : Offer) :
    (planned : Planned HostWorkspaceState) → Decidable (c.Brings offer planned)
  | .hold => .isFalse id
  | .snapshot _ => .isTrue trivial
  | .diff .. => inferInstanceAs (Decidable (_ ∧ _))

/-- A frame that confirms a patch leaves one to retire it: a document frame
is still to come, or the patch agrees with the document as it is. -/
def RetiresOn (c : WorkspaceChannel) : List DocumentFrame → Prop
  | [] => True
  | f :: link =>
    (IsDocument f → c.client.mirror.framesApplied ≠ 0xFFFFFFFFFFFFFFFF) ∧
    ∀ r ∈ resultOf f, r.status = statusApplied → ∀ patch ∈ c.client.mirror.pending,
      patch.intentId = r.intentId →
        c.pump.unsent.isSome = true ∨ c.ExpectsOn link ∨ Agrees patch c.document.state

instance (c : WorkspaceChannel) : (link : List DocumentFrame) → Decidable (c.RetiresOn link)
  | [] => .isTrue trivial
  | _ :: _ => inferInstanceAs (Decidable (_ ∧ _))

/-- A step that strands no confirmed patch. -/
def Retires (c : WorkspaceChannel) : ChannelOp → Prop
  | .receive => c.RetiresOn c.link
  | .pump => ∀ offer planned, c.pump = .claimed offer planned →
    c.Settled ∨ c.Expects ∨ c.Brings offer planned
  | _ => True

/-- Every patch is still to be answered, or was confirmed and is to be
retired by the next frame; and that frame is on its way, or is not needed. -/
structure Answered (c : WorkspaceChannel) : Prop where
  distinct : (c.client.mirror.pending.map PendingPatch.intentId).Nodup
  unanswered : ∀ patch ∈ c.client.mirror.pending, patch.retireAtFrame = none →
    patch.intentId ∈ c.outstanding
  next : ∀ patch ∈ c.client.mirror.pending, ∀ frame, patch.retireAtFrame = some frame →
    frame.toNat ≤ c.client.mirror.framesApplied.toNat + 1
  retired : c.Expects ∨ c.pump.unsent.isSome = true ∨ c.Settled

theorem Answered.carry (h : c.Answered) (hmirror : c'.client.mirror = c.client.mirror)
    (hdocument : c'.document = c.document) (houtstanding : c'.outstanding = c.outstanding)
    (hexpects : c.Expects → c'.Expects ∨ c'.pump.unsent.isSome = true)
    (hunsent : c.pump.unsent.isSome = true → c'.Expects ∨ c'.pump.unsent.isSome = true ∨ c.Settled) :
    c'.Answered where
  distinct := hmirror ▸ h.distinct
  unanswered patch hpatch hnone := by
    rw [hmirror] at hpatch
    rw [houtstanding]
    exact h.unanswered patch hpatch hnone
  next := by rw [hmirror]; exact h.next
  retired := by
    have hsettled : c.Settled → c'.Settled := by
      rw [Settled, Settled, hmirror, hdocument]
      exact id
    rcases h.retired with hcoming | hhand | hsame
    · exact (hexpects hcoming).imp_right .inl
    · exact (hunsent hhand).imp_right (Or.imp_right hsettled)
    · exact .inr (.inr (hsettled hsame))

/-! ### The host -/

theorem Answered.bump (h : c.Answered) (next : HostWorkspaceState) : (c.bump next).Answered where
  distinct := h.distinct
  unanswered := h.unanswered
  next := h.next
  retired := .inl (.inl rfl)

theorem Answered.hear (h : c.Answered) (status : UInt8) : (c.hear status).Answered := by
  unfold WorkspaceChannel.hear
  split
  case h_1 n uplink hidle huplink =>
    refine h.carry rfl rfl ?_ ?_ fun hsome => .inr (.inl hsome)
    · simp [outstanding, huplink, List.filterMap_cons, WorkspaceRequest.intentId?, Inner.noteAck]
    · intro hexpects
      refine .inl ?_
      simpa [Expects, ExpectsOn, Inner.noteAck, huplink, WorkspaceRequest.isSubscribe] using hexpects
  case h_2 r uplink hidle huplink =>
    refine h.carry rfl rfl ?_ (fun _ => .inl (.inr (.inl rfl))) fun _ => .inl (.inr (.inl rfl))
    simp [outstanding, huplink, hidle, List.filterMap_cons, WorkspaceRequest.intentId?,
      Handler.results, Inner.noteResubscribe]
  case h_3 asked uplink hidle huplink =>
    refine h.carry rfl rfl ?_ ?_ fun hsome => .inr (.inl hsome)
    · simp [outstanding, huplink, hidle, WorkspaceRequest.intentId?, Handler.results]
    · intro hexpects
      refine .inl ?_
      simpa [Expects, ExpectsOn, hidle, huplink, WorkspaceRequest.isSubscribe] using hexpects
  case h_4 => exact h

theorem Answered.reply (h : c.Answered) : c.reply.Answered := by
  unfold WorkspaceChannel.reply
  split
  case h_1 => exact h
  case h_2 hhandler =>
    refine h.carry rfl rfl ?_ (fun _ => .inl (.inl rfl)) fun hsome =>
      .inr (.inl hsome)
    simp [outstanding, hhandler, Handler.results, Inner.deliverState]
  case h_3 result hhandler =>
    refine h.carry rfl rfl ?_ ?_ fun hsome => .inr (.inl hsome)
    · simp [outstanding, hhandler, Handler.results, Inner.deliverResult]
    · intro hexpects
      refine .inl ?_
      simpa [Expects, ExpectsOn, hhandler, Inner.deliverResult] using hexpects

/-! ### The pump -/

section

variable (h : c.Answered)
include h

theorem Answered.move {inner : Inner}
    (hresults : pump.results ++ inner.pendingResults = c.pump.results ++ c.inner.pendingResults)
    (hpending : inner.pendingState = c.inner.pendingState) (hfree : c.pump.unsent = none) :
    ({ c with pump, inner } : WorkspaceChannel).Answered := by
  refine h.carry rfl rfl ?_ ?_ fun hsome => ?_
  · rw [outstanding, outstanding, List.append_assoc (List.filterMap _ c.link) pump.results, hresults,
      ← List.append_assoc (List.filterMap _ c.link)]
  · intro hexpects
    refine .inl ?_
    rw [Expects, ExpectsOn, hpending]
    exact hexpects
  · rw [hfree] at hsome
    contradiction

theorem Answered.take (hresults : c.pump.results = []) (hfree : c.pump.unsent = none) : c.take.Answered :=
  h.move (by rw [hresults]; simp [Inner.takeInbox, Pump.results]) rfl hfree

theorem Answered.finish (hresults : c.pump.results = [])
    (hfree : c.pump.unsent = none) (didSend : Bool) : (c.finish didSend).Answered := by
  refine h.move ?_ rfl hfree
  rw [hresults]
  cases didSend <;> rfl

theorem Answered.sendLoose
    (hresults : (resultOf f).toList ++ pump.results = c.pump.results) (hfree : c.pump.unsent = none) :
    ({ c with pump, link := c.link ++ [f] } : WorkspaceChannel).Answered := by
  refine h.carry rfl rfl ?_ (fun hexpects => .inl ?_) fun hsome => ?_
  · have hlink : (c.link ++ [f]).filterMap resultOf ++ pump.results
        = c.link.filterMap resultOf ++ c.pump.results := by
      grind
    rw [outstanding, outstanding]
    rw [hlink]
  · exact hexpects.imp_right (Or.imp_right (Or.imp_right fun hfolds => hfolds.append [f]))
  · rw [hfree] at hsome
    contradiction

theorem Answered.ship (hinv : c.Inv)
    (hresult : resultOf f = none) (hresults : pump.results = c.pump.results) (hok : c.Settled ∨ c.Expects ∨
      ∀ c' : Client, SameTruth c.client.mirror c'.mirror → (c'.handle f).2 ≠ []) :
    ({ c with pump, link := c.link ++ [f] } : WorkspaceChannel).Answered := by
  have hkeeps : c.Expects → ({ c with pump, link := c.link ++ [f] } : WorkspaceChannel).Expects :=
    Or.imp_right (Or.imp_right (Or.imp_right fun hfolds => hfolds.append [f]))
  refine h.carry rfl rfl ?_ (fun hexpects => .inl (hkeeps hexpects)) fun _ => ?_
  · rw [outstanding, outstanding]
    rw [List.filterMap_append, hresults]
    simp [hresult]
  · rcases hok with hsettled | hexpects | hnews
    · exact .inr (.inr hsettled)
    · exact .inl (hkeeps hexpects)
    · exact .inl (.inr (.inr (.inr (folds_append_news hinv.offered.caps hinv.ordered.carries
        hinv.ordered.follows hnews))))

theorem Answered.sendDocument (hinv : c.Inv) {o : Offer}
    {planned : Planned HostWorkspaceState} (hpump : c.pump = .claimed o planned)
    (hok : c.Settled ∨ c.Expects ∨ c.Brings o planned) : (c.sendDocument o planned).Answered := by
  have hgenuine := hinv.offered.inHand o (by rw [hpump]; rfl)
  have hright := hinv.earned.planned planned (by rw [hpump]; rfl)
  have hresults : Pump.results (.shipped o) = c.pump.results := by rw [hpump]; rfl
  cases planned with
  | hold => exact absurd hright id
  | snapshot resetFirst =>
    obtain rfl : resetFirst = false := hright
    refine h.ship hinv rfl hresults (.inr (.inr fun c' _ => ?_))
    obtain ⟨houtcome, _⟩ :=
      @apply_snapshot c'.mirror o.epoch o.stateNum o.state (hinv.offered.caps.named hgenuine.named)
    have hanswer := (handle_document (c := c') (f := ⟨WorkspaceEventKind.snapshot.asByte, o.epoch, 0,
      o.stateNum, encodeSnapshot o.state⟩) (.inl rfl)).2.trans (congrArg _ houtcome)
    rw [hanswer]
    simp [Client.answer]
  | diff base state =>
    simp only [WorkspaceChannel.sendDocument]
    split
    case isTrue hempty =>
      refine h.carry rfl rfl (by simp [outstanding, hpump, Pump.results]) .inl fun _ => ?_
      rcases hok with hsettled | hexpects | ⟨hfull, _⟩
      · exact .inr (.inr hsettled)
      · exact .inl hexpects
      · rw [hempty] at hfull
        contradiction
    case isFalse hfull =>
      refine h.ship hinv rfl hresults (hok.imp_right (Or.imp_right ?_))
      rintro ⟨_, hpast⟩ c' htruth hnil
      have hcarries : Carries c.document ⟨WorkspaceEventKind.diff.asByte, o.epoch, base, o.stateNum,
        encodeDiff (o.state.diffFrom state)⟩ := .diff o hgenuine base state hright.1
      rcases handle_cases hinv.offered.caps hcarries (htruth.follows hinv.ordered.follows) with
        ⟨_, _, hold⟩ | ⟨_, _, hasks⟩ | ⟨_, hack, _⟩
      · obtain ⟨hepoch, hle⟩ := hold (.inr rfl)
        rw [htruth.epoch] at hepoch
        rw [htruth.stateNum] at hle
        exact absurd hle (Int.not_le.mpr (hpast hepoch))
      · rw [hasks] at hnil
        contradiction
      · rw [hack] at hnil
        contradiction

theorem Answered.sendInbox {loose : RawUuid} {inbox : Inbox} {didSend : Bool}
    (hpump : c.pump = .sending loose inbox didSend) : (c.sendInbox loose inbox didSend).Answered := by
  have hfree : c.pump.unsent = none := by rw [hpump]; rfl
  have hresults : c.pump.results = inbox.results := by rw [hpump]; rfl
  unfold WorkspaceChannel.sendInbox
  split
  case h_1 _ _ _ result results hinbox =>
    have hresult : resultOf ⟨WorkspaceEventKind.intentResult.asByte, loose, 0, 0, result.encode⟩
        = some result := by
      simp [resultOf, decode_encode_result]
    exact h.sendLoose (by rw [hresult, hresults, hinbox]; rfl) hfree
  case h_2 _ _ _ roster hinbox _ => exact h.sendLoose (by rw [hresults, hinbox]; rfl) hfree
  case h_3 o hinbox _ _ =>
    rw [hinbox] at hresults
    cases hplan : (c.inner.retention.plan o.epoch).1 with
    | hold =>
      simp only [WorkspaceChannel.plan, hplan, WorkspaceChannel.finish]
      cases didSend <;> exact h.move (by rw [hresults]; rfl) rfl hfree
    | snapshot resetFirst =>
      simp only [WorkspaceChannel.plan, hplan]
      exact h.move (by rw [hresults]; rfl) rfl hfree
    | diff base state =>
      simp only [WorkspaceChannel.plan, hplan]
      exact h.move (by rw [hresults]; rfl) rfl hfree
  case h_4 hinbox _ _ => exact h.finish (by rw [hresults, hinbox]) hfree didSend

theorem Answered.pumpStep (hinv : c.Inv) (hok : c.Retires .pump) : c.pumpStep.Answered := by
  unfold WorkspaceChannel.pumpStep
  split
  case h_1 hpump =>
    split
    case isTrue => exact h.take (by rw [hpump]; rfl) (by rw [hpump]; rfl)
    case isFalse => exact h
  case h_2 hpump => exact h.take (by rw [hpump]; rfl) (by rw [hpump]; rfl)
  case h_3 inbox hpump =>
    cases inbox.subscribe <;> exact h.move (by rw [hpump]; rfl) rfl (by rw [hpump]; rfl)
  case h_4 inbox hpump => exact h.move (by rw [hpump]; rfl) rfl (by rw [hpump]; rfl)
  case h_5 inbox hpump => exact h.move (by rw [hpump]; rfl) rfl (by rw [hpump]; rfl)
  case h_6 loose inbox didSend hpump => exact h.sendInbox hpump
  case h_7 o planned hpump =>
    refine h.carry rfl rfl ?_ (fun _ => .inr rfl) fun _ => .inr (.inl rfl)
    simp [outstanding, hpump, Pump.results, Inner.claimPendingState]
  case h_8 o planned hpump => exact h.sendDocument hinv hpump (hok o planned hpump)
  case h_9 o hpump => exact h.move (by rw [hpump]; rfl) rfl (by rw [hpump]; rfl)

end

/-! ### The client -/

section

variable (h : c.Answered)
include h

theorem Answered.receive_same
    (hlink : c.link = f :: link) (hself : (c.client.handle f).1 = c.client) (hresult : resultOf f = none)
    (hanswer : (c.client.handle f).2 = [] ∨ ∃ r, (c.client.handle f).2 = [.subscribe r]) :
    ({ c with link, uplink := c.uplink ++ (c.client.handle f).2 } : WorkspaceChannel).Answered := by
  refine h.carry rfl rfl ?_ (fun hexpects => .inl ?_) fun hsome => .inr (.inl hsome)
  · have hnone : (c.client.handle f).2.filterMap WorkspaceRequest.intentId? = [] := by
      rcases hanswer with hnil | ⟨r, hasks⟩
      · rw [hnil]
        rfl
      · rw [hasks]
        rfl
    simp [outstanding, hlink, hresult, hnone]
  · rcases hexpects with hpending | hhandler | hasked | hfolds
    · exact .inl hpending
    · exact .inr (.inl hhandler)
    · exact .inr (.inr (.inl (by simp [hasked])))
    · rw [hlink, Folds, hself] at hfolds
      rcases hanswer with hnil | ⟨r, hasks⟩
      · exact .inr (.inr (.inr (hfolds.resolve_left fun hne => hne hnil)))
      · exact .inr (.inr (.inl (by simp [hasks, WorkspaceRequest.isSubscribe])))

/-- A result is received: its patch goes, or is confirmed, and then a frame
is still to come or it agrees with the document. -/
theorem Answered.receive_result
    (hlink : c.link = f :: link) {r : WorkspaceIntentResult} (hresult : resultOf f = some r)
    (hclient : (c.client.handle f).1 = { c.client with mirror :=
      (c.client.mirror.noteIntentResult r.intentId (r.status = statusApplied)).2 })
    (hanswer : (c.client.handle f).2 = []) (hok : c.RetiresOn c.link) :
    ({ c with link, client := (c.client.handle f).1 } : WorkspaceChannel).Answered := by
  have htruth : SameTruth c.client.mirror (c.client.handle f).1.mirror := by
    rw [hclient]
    exact sameTruth_noteIntentResult ..
  have hframes : (c.client.handle f).1.mirror.framesApplied = c.client.mirror.framesApplied := by
    rw [hclient]
    exact framesApplied_noteIntentResult ..
  have hkeeps : c.ExpectsOn link →
      ({ c with link, client := (c.client.handle f).1 } : WorkspaceChannel).Expects :=
    Or.imp_right (Or.imp_right (Or.imp_right fun hfolds => hfolds.congr htruth))
  have hpatches : ∀ patch ∈ (c.client.handle f).1.mirror.pending, _ := fun patch hpatch => by
    rw [hclient] at hpatch
    exact pending_noteIntentResult h.distinct _ _ hpatch
  rw [hlink] at hok
  constructor
  · rw [hclient]
    exact ids_noteIntentResult h.distinct _ _
  · intro patch hpatch hnone
    rcases hpatches patch hpatch with ⟨hold, hother⟩ | ⟨_, old, _, _, rfl⟩
    · have hid := h.unanswered patch hold hnone
      simpa [outstanding, hlink, hresult, hclient, hother] using hid
    · contradiction
  · intro patch hpatch frame hframe
    rw [hframes]
    rcases hpatches patch hpatch with ⟨hold, _⟩ | ⟨_, old, _, _, rfl⟩
    · exact h.next patch hold frame hframe
    · obtain rfl := Option.some.inj hframe
      exact toNat_retireFrame_le _
  · -- the one patch that was confirmed
    by_cases hcoming : c.ExpectsOn link
    case pos => exact .inl (hkeeps hcoming)
    case neg =>
      by_cases hhand : c.pump.unsent.isSome = true
      case pos => exact .inr (.inl hhand)
      case neg =>
        have hsettled : c.Settled := by
          rcases h.retired with hexpects | hunsent | hsettled
          · rw [Expects, hlink] at hexpects
            refine absurd (hexpects.imp_right (Or.imp_right (Or.imp_right fun hfolds => ?_))) hcoming
            have hrest := hfolds.resolve_left fun hne => hne hanswer
            exact hrest.congr ⟨htruth.epoch.symm, htruth.stateNum.symm, htruth.entries.symm⟩
          · exact absurd hunsent hhand
          · exact hsettled
        refine .inr (.inr fun patch hpatch hconfirmed => ?_)
        rcases hpatches patch hpatch with ⟨hold, _⟩ | ⟨happlied, old, hmem, hid, rfl⟩
        · exact hsettled patch hold hconfirmed
        · have hagrees := hok.2 r hresult (by simpa using happlied) old hmem hid
          exact (hagrees.resolve_left hhand).resolve_left hcoming

theorem Answered.receive_folded (hlink : c.link = f :: link) (hresult : resultOf f = none)
    (hclient : (c.client.handle f).1 = { c.client with mirror :=
      (c.client.mirror.apply f.kind f.epoch f.baseStateNum f.newStateNum f.payload).2 })
    {n : Int} (hanswer : (c.client.handle f).2 = [.ack n])
    (hsub : (c.client.handle f).1.mirror.pending.Sublist c.client.mirror.pending)
    (hdue : ∀ patch ∈ (c.client.handle f).1.mirror.pending, ∀ frame,
      patch.retireAtFrame = some frame → c.client.mirror.framesApplied + 1 < frame)
    (hlast : c.client.mirror.framesApplied ≠ 0xFFFFFFFFFFFFFFFF) :
    ({ c with link, client := (c.client.handle f).1, uplink := c.uplink ++ (c.client.handle f).2 } :
      WorkspaceChannel).Answered := by
  have hopen : ∀ patch ∈ (c.client.handle f).1.mirror.pending, patch.retireAtFrame = none := by
    intro patch hpatch
    cases hframe : patch.retireAtFrame with
    | none => rfl
    | some frame =>
      have hle := h.next patch (hsub.subset hpatch) frame hframe
      have hlt := UInt64.lt_iff_toNat_lt.mp (hdue patch hpatch frame hframe)
      rw [UInt64.toNat_add, Nat.mod_eq_of_lt (toNat_succ_lt hlast)] at hlt
      exact absurd hle (Nat.not_le.mpr hlt)
  constructor
  · exact h.distinct.sublist (hsub.map _)
  · intro patch hpatch hnone
    have hid := h.unanswered patch (hsub.subset hpatch) hnone
    simpa [outstanding, hlink, hresult, hclient, hanswer, WorkspaceRequest.intentId?] using hid
  · grind
  · refine .inr (.inr fun patch hpatch hconfirmed => ?_)
    rw [hopen patch hpatch] at hconfirmed
    contradiction

theorem Answered.receive (hinv : c.Inv) (hok : c.RetiresOn c.link) :
    c.receive.Answered := by
  unfold WorkspaceChannel.receive
  split
  case h_1 => exact h
  case h_2 f link hlink =>
    have hf := hinv.ordered.carries f (by rw [hlink]; exact List.mem_cons_self ..)
    rcases carries_kind hf with hloose | hdocument
    · rcases handle_loose_cases (c := c.client) hloose with ⟨hresult, hself⟩ | ⟨r, hresult, hclient⟩
      · have hsame := h.receive_same hlink hself hresult (.inl (handle_loose hloose).2)
        rwa [hself]
      · have hnoted := h.receive_result hlink hresult hclient (handle_loose hloose).2 hok
        rwa [(handle_loose hloose).2, List.append_nil]
    · obtain ⟨hclient, hanswer⟩ := handle_document (c := c.client) hdocument
      have hresult := resultOf_document hdocument
      rcases apply_retires c.client.mirror f.kind f.epoch f.baseStateNum f.newStateNum f.payload with
        ⟨⟨n, happlied⟩, hsub, hdue⟩ | hreset | ⟨hrefused, hself⟩
      · rw [hlink] at hok
        rw [happlied] at hanswer
        refine h.receive_folded hlink hresult hclient hanswer ?_ ?_ (hok.1 hdocument)
        · rw [hclient]
          exact hsub
        · rw [hclient]
          exact hdue
      · rcases hdocument with hkind | hkind <;> rw [hkind] at hreset <;> contradiction
      · rw [hself] at hclient
        have hsame := h.receive_same hlink hclient hresult ?_
        · rwa [hclient]
        · rw [hanswer, hclient]
          cases houtcome :
              (c.client.mirror.apply f.kind f.epoch f.baseStateNum f.newStateNum f.payload).1 with
          | applied n =>
            rw [houtcome] at hrefused
            exact absurd hrefused id
          | needsResubscribe => exact .inr ⟨_, rfl⟩
          | ignored => exact .inl rfl
          | dropped => exact .inl rfl
          | reset => exact .inl rfl

theorem Answered.sendSubscribe : ({ c with uplink := c.uplink ++ [.subscribe c.client.subscribeRequest] } :
      WorkspaceChannel).Answered := by
  have hasked : ({ c with uplink := c.uplink ++ [.subscribe c.client.subscribeRequest] } :
      WorkspaceChannel).Expects := .inr (.inr (.inl (by simp [WorkspaceRequest.isSubscribe])))
  refine h.carry rfl rfl ?_ (fun _ => .inl hasked) fun _ => .inl hasked
  simp [outstanding, WorkspaceRequest.intentId?]

theorem Answered.sendIntent : c.sendIntent.Answered := by
  unfold WorkspaceChannel.sendIntent
  split
  case h_1 => exact h
  case h_2 asked intentQueue hqueue =>
    refine h.carry rfl rfl ?_ (fun hexpects => .inl ?_) fun hsome => .inr (.inl hsome)
    · simp [outstanding, hqueue, WorkspaceRequest.intentId?]
    · rcases hexpects with hpending | hhandler | hasked | hfolds
      · exact .inl hpending
      · exact .inr (.inl hhandler)
      · exact .inr (.inr (.inl (by simp [hasked])))
      · exact .inr (.inr (.inr (hfolds.congr (.refl _))))

end

theorem stage_eq (client : Client) {proposed : HostWorkspaceState → Option WorkspaceStateDiff}
    (asked : WorkspaceIntent) (issuedAt : Float) {diff : WorkspaceStateDiff}
    (hproposed : proposed client.mirror.resolved = some diff) :
    ∃ patch : PendingPatch, patch.intentId = asked.intentId ∧ patch.retireAtFrame = none ∧
      client.stage proposed asked issuedAt = { client with
        mirror := { client.mirror with
          pending := (client.mirror.pending.filter fun p => p.intentId ≠ asked.intentId) ++ [patch] }
        intentQueue := client.intentQueue ++ [asked] } := by
  unfold Client.stage WorkspaceMirror.stageIntent
  rw [hproposed]
  exact ⟨⟨asked.intentId, _, _, issuedAt, none⟩, rfl, rfl, rfl⟩

theorem Answered.stage (h : c.Answered) (proposed : HostWorkspaceState → Option WorkspaceStateDiff)
    (asked : WorkspaceIntent) (issuedAt : Float) :
    ({ c with client := c.client.stage proposed asked issuedAt } : WorkspaceChannel).Answered := by
  have htruth := sameTruth_stage c.client proposed asked issuedAt
  have hkeeps : c.Expects →
      ({ c with client := c.client.stage proposed asked issuedAt } : WorkspaceChannel).Expects :=
    Or.imp_right (Or.imp_right (Or.imp_right fun hfolds => hfolds.congr htruth))
  cases hproposed : proposed c.client.mirror.resolved with
  | none =>
    have hself : c.client.stage proposed asked issuedAt = c.client := by
      simp [Client.stage, WorkspaceMirror.stageIntent, hproposed]
    rwa [hself]
  | some diff =>
    obtain ⟨patch, hid, hopen, hstage⟩ := stage_eq c.client asked issuedAt hproposed
    have hmem : ∀ p ∈ (c.client.stage proposed asked issuedAt).mirror.pending,
        p ∈ c.client.mirror.pending ∨ p = patch := by
      grind
    constructor
    · rw [hstage]
      rw [List.map_append, List.map_singleton, List.nodup_append]
      refine ⟨h.distinct.sublist (List.filter_sublist.map _), by simp, ?_⟩
      intro a ha b hb heq
      obtain ⟨old, hold, rfl⟩ := List.mem_map.mp ha
      have hne := (List.mem_filter.mp hold).2
      rw [List.mem_singleton.mp hb, hid] at heq
      simp [heq] at hne
    · intro p hp hnone
      have houtstanding : ({ c with client := c.client.stage proposed asked issuedAt } :
          WorkspaceChannel).outstanding = c.outstanding ++ [asked.intentId] := by
        rw [hstage]
        simp [outstanding]
      rw [houtstanding]
      rcases hmem p hp with hold | rfl
      · exact List.mem_append_left _ (h.unanswered p hold hnone)
      · simp [hid]
    · intro p hp frame hframe
      rcases hmem p hp with hold | rfl
      · have hnext := h.next p hold frame hframe
        rwa [hstage]
      · rw [hopen] at hframe
        contradiction
    · rcases h.retired with hexpects | hhand | hsettled
      · exact .inl (hkeeps hexpects)
      · exact .inr (.inl hhand)
      · refine .inr (.inr fun p hp hconfirmed => ?_)
        rcases hmem p hp with hold | rfl
        · exact hsettled p hold hconfirmed
        · rw [hopen] at hconfirmed
          contradiction

theorem Answered.expirePending (h : c.Answered) (now timeout : Float) :
    ({ c with client := { c.client with
        mirror := (c.client.mirror.expirePending now timeout).2 } } : WorkspaceChannel).Answered := by
  have hkept : ∀ patch ∈ (c.client.mirror.expirePending now timeout).2.pending,
      patch ∈ c.client.mirror.pending := fun _ hpatch => List.mem_of_mem_filter hpatch
  constructor
  · exact h.distinct.sublist (List.filter_sublist.map _)
  · exact fun patch hpatch => h.unanswered patch (hkept patch hpatch)
  · exact fun patch hpatch => h.next patch (hkept patch hpatch)
  · rcases h.retired with hexpects | hhand | hsettled
    · exact .inl (hexpects.imp_right (Or.imp_right (Or.imp_right fun hfolds =>
        hfolds.congr ⟨rfl, rfl, rfl⟩)))
    · exact .inr (.inl hhand)
    · exact .inr (.inr fun patch hpatch => hsettled patch (hkept patch hpatch))

theorem Answered.step (h : c.Answered) (hinv : c.Inv)
    (hown : Workspace.own c op = true) (hok : c.Retires op) : (c.step op).Answered := by
  cases op with
  | offer next => contradiction
  | deliverRoster roster => exact h.carry rfl rfl rfl .inl fun hsome => .inr (.inl hsome)
  | deliverResult result => contradiction
  | hear status => exact h.hear status
  | reply => exact h.reply
  | pump => exact h.pumpStep hinv hok
  | receive => exact h.receive hinv hok
  | sendSubscribe => exact h.sendSubscribe
  | stage proposed asked issuedAt => exact h.stage proposed asked issuedAt
  | sendIntent => exact h.sendIntent
  | expirePending now timeout => exact h.expirePending now timeout

/-! ### The fast path -/

/-- What the panes pushed is no topology. -/
def Spares (c : WorkspaceChannel) : Prop :=
  ∀ key, isTopology key = true → c.client.mirror.fastPath[key]? = none

theorem lookup_retireFastPath {m : WorkspaceMirror} {key : WorkspaceKey}
    (h : m.fastPath[key]? = none) (supplied : List WorkspaceKey) :
    (m.retireFastPath supplied).fastPath[key]? = none := by
  unfold WorkspaceMirror.retireFastPath
  split
  case isTrue => exact h
  case isFalse =>
    rw [BTreeMap.lookup_foldl_erase, h]
    exact ite_self _

theorem lookup_apply {m : WorkspaceMirror} {key : WorkspaceKey} (h : m.fastPath[key]? = none)
    (kind : UInt8) (epoch : RawUuid) (base new : Int) (payload : List UInt8) :
    (m.apply kind epoch base new payload).2.fastPath[key]? = none := by
  unfold WorkspaceMirror.apply
  split
  case h_1 =>
    unfold WorkspaceMirror.applySnapshot
    cases decodeSnapshot payload with
    | ok decoded => exact lookup_retireFastPath (by exact h) decoded.keys
    | fault e => exact h
    | panicked => exact h
  case h_2 =>
    unfold WorkspaceMirror.applyDiff
    split
    case isTrue => exact h
    case isFalse =>
      split
      case isTrue => exact h
      case isFalse =>
        split
        case isTrue => exact h
        case isFalse =>
          cases decodeDiff payload with
          | ok diff => exact lookup_retireFastPath (by exact h) _
          | fault e => exact h
          | panicked => exact h
  case h_3 => exact h
  case h_4 => exact h

theorem fastPath_noteIntentResult (m : WorkspaceMirror) (intentId : RawUuid) (applied : Bool) :
    (m.noteIntentResult intentId applied).2.fastPath = m.fastPath := by
  unfold WorkspaceMirror.noteIntentResult
  split
  case h_1 => rfl
  case h_2 => split <;> rfl

theorem Spares.receive (h : c.Spares) (hinv : c.Inv) : c.receive.Spares := by
  unfold WorkspaceChannel.receive
  split
  case h_1 => exact h
  case h_2 f link hlink =>
    intro key hkey
    have hf := hinv.ordered.carries f (by rw [hlink]; exact List.mem_cons_self ..)
    rcases carries_kind hf with hloose | hdocument
    · rcases handle_loose_cases (c := c.client) hloose with ⟨_, hself⟩ | ⟨r, _, hclient⟩
      · rw [hself]
        exact h key hkey
      · rw [hclient, fastPath_noteIntentResult]
        exact h key hkey
    · rw [(handle_document hdocument).1]
      exact lookup_apply (h key hkey) ..

theorem Spares.stage (h : c.Spares) (proposed : HostWorkspaceState → Option WorkspaceStateDiff)
    (asked : WorkspaceIntent) (issuedAt : Float) :
    ({ c with client := c.client.stage proposed asked issuedAt } : WorkspaceChannel).Spares := by
  intro key hkey
  have hsame : (c.client.stage proposed asked issuedAt).mirror.fastPath = c.client.mirror.fastPath := by
    grind [Client.stage, WorkspaceMirror.stageIntent]
  rw [hsame]
  exact h key hkey

theorem client_hear (status : UInt8) : (c.hear status).client = c.client := by
  unfold WorkspaceChannel.hear
  split <;> rfl

theorem client_reply : c.reply.client = c.client := by
  unfold WorkspaceChannel.reply
  split <;> rfl

theorem client_plan (o : Offer) (didSend : Bool) : (c.plan o didSend).client = c.client := by
  cases hplan : (c.inner.retention.plan o.epoch).1 <;>
    simp only [WorkspaceChannel.plan, hplan, WorkspaceChannel.finish]

theorem client_sendDocument (o : Offer) (planned : Planned HostWorkspaceState) :
    (c.sendDocument o planned).client = c.client := by
  unfold WorkspaceChannel.sendDocument
  split
  case h_1 => rfl
  case h_2 => rfl
  case h_3 => rfl
  case h_4 => split <;> rfl

theorem client_pumpStep : c.pumpStep.client = c.client := by
  unfold WorkspaceChannel.pumpStep
  split
  case h_1 => split <;> rfl
  case h_6 loose inbox didSend _ =>
    unfold WorkspaceChannel.sendInbox
    split
    case h_3 o _ _ _ => exact client_plan o didSend
    all_goals rfl
  case h_8 o planned _ => exact client_sendDocument o planned
  all_goals rfl

theorem Spares.step (h : c.Spares) (hinv : c.Inv) (op : ChannelOp) : (c.step op).Spares := by
  cases op with
  | offer next => exact h
  | deliverRoster roster => exact h
  | deliverResult result => exact h
  | hear status => rwa [Spares, WorkspaceChannel.step, client_hear]
  | reply => rwa [Spares, WorkspaceChannel.step, client_reply]
  | pump => rwa [Spares, WorkspaceChannel.step, client_pumpStep]
  | receive => exact h.receive hinv
  | sendSubscribe => exact h
  | stage proposed asked issuedAt => exact h.stage proposed asked issuedAt
  | sendIntent =>
    unfold WorkspaceChannel.step WorkspaceChannel.sendIntent
    dsimp only
    split <;> exact h
  | expirePending now timeout => exact h

/-! ### The document -/

theorem document_hear (status : UInt8) : (c.hear status).document = c.document := by
  unfold WorkspaceChannel.hear
  split <;> rfl

theorem document_sendDocument (o : Offer) (planned : Planned HostWorkspaceState) :
    (c.sendDocument o planned).document = c.document := by
  unfold WorkspaceChannel.sendDocument
  split
  case h_1 => rfl
  case h_2 => rfl
  case h_3 => rfl
  case h_4 => split <;> rfl

theorem document_plan (o : Offer) (didSend : Bool) : (c.plan o didSend).document = c.document := by
  cases hplan : (c.inner.retention.plan o.epoch).1 <;>
    simp only [WorkspaceChannel.plan, hplan, WorkspaceChannel.finish]

theorem document_pumpStep : c.pumpStep.document = c.document := by
  unfold WorkspaceChannel.pumpStep
  split
  case h_1 => split <;> rfl
  case h_6 loose inbox didSend _ =>
    unfold WorkspaceChannel.sendInbox
    split
    case h_3 o _ _ _ => exact document_plan o didSend
    all_goals rfl
  case h_8 o planned _ => exact document_sendDocument o planned
  all_goals rfl

theorem document_step (hown : Workspace.own c op = true) : (c.step op).document = c.document := by
  cases op with
  | offer next => contradiction
  | deliverRoster roster => rfl
  | deliverResult result => contradiction
  | hear status => exact document_hear status
  | reply =>
    show c.reply.document = c.document
    unfold WorkspaceChannel.reply
    split <;> rfl
  | pump => exact document_pumpStep
  | receive =>
    show c.receive.document = c.document
    unfold WorkspaceChannel.receive
    split <;> rfl
  | sendSubscribe => rfl
  | stage proposed asked issuedAt => rfl
  | sendIntent =>
    show c.sendIntent.document = c.document
    unfold WorkspaceChannel.sendIntent
    split <;> rfl
  | expirePending now timeout => rfl

/-- What a channel of a workspace keeps. -/
structure Sound (document : WorkspaceDocument) (c : WorkspaceChannel) : Prop where
  inv : c.Inv
  answered : c.Answered
  spares : c.Spares
  document : c.document = document

theorem Sound.bump (h : Sound document c) {next : HostWorkspaceState}
    (hnext : next.WithinCaps) : Sound (document.advance next) (c.bump next) :=
  ⟨h.inv.bump hnext, h.answered.bump next, h.spares, congrArg (·.advance next) h.document⟩

theorem Sound.hear (h : Sound document c) (status : UInt8) : Sound document (c.hear status) :=
  ⟨h.inv.hear status, h.answered.hear status, h.spares.step h.inv (.hear status),
    (document_hear status).trans h.document⟩

theorem Sound.step (h : Sound document c)
    (hown : Workspace.own c op = true) (hok : c.Undisturbed op ∧ c.Retires op) :
    Sound document (c.step op) :=
  ⟨h.inv.step op hok.1, h.answered.step h.inv hown hok.2, h.spares.step h.inv op,
    (document_step hown).trans h.document⟩

/-- A channel at rest: nothing is left to do, and every intent was written. -/
def AtRest (c : WorkspaceChannel) : Prop := c.Quiescent ∧ c.client.intentQueue = []

instance (c : WorkspaceChannel) : Decidable c.AtRest := inferInstanceAs (Decidable (_ ∧ _))

theorem Sound.resolved_of_rest (h : Sound document c) (hrest : c.AtRest) :
    SameTopology c.client.mirror.resolved document.state := by
  obtain ⟨hquiet, hqueue⟩ := hrest
  have hentries := h.inv.newest_of_quiescent hquiet
  obtain ⟨hparked, hwork, hidle, hlink, huplink, _⟩ := hquiet
  simp only [Inner.hasWork, Bool.or_eq_false_iff] at hwork
  have hunsent : c.pump.unsent.isSome = false := by
    cases hpump : c.pump <;> rw [hpump] at hparked <;> first | rfl | contradiction
  have hresults : c.pump.results = [] := by
    cases hpump : c.pump <;> rw [hpump] at hparked <;> first | rfl | contradiction
  have hnone : c.outstanding = [] := by
    simp only [outstanding, hlink, hresults, hidle, huplink, hqueue]
    simpa [Handler.results] using hwork.2
  have hconfirmed : ∀ patch ∈ c.client.mirror.pending, patch.retireAtFrame.isSome = true := by
    intro patch hpatch
    cases hframe : patch.retireAtFrame with
    | none =>
      have hopen := h.answered.unanswered patch hpatch hframe
      rw [hnone] at hopen
      exact absurd hopen List.not_mem_nil
    | some frame => rfl
  have hsettled : c.Settled := by
    rcases h.answered.retired with hexpects | hhand | hsettled
    · rcases hexpects with hpending | hhandler | hasked | hfolds
      · rw [hwork.1.1.1] at hpending
        contradiction
      · rw [hidle] at hhandler
        contradiction
      · rw [huplink] at hasked
        contradiction
      · rw [hlink] at hfolds
        exact absurd hfolds id
    · rw [hunsent] at hhand
      contradiction
    · exact hsettled
  intro key hkey
  rw [get_resolved_of_agrees (fun patch hpatch => ?_) (h.spares key hkey), hentries, h.document]
  rw [hentries]
  exact hsettled patch hpatch (hconfirmed patch hpatch)

end WorkspaceChannel

/-! ## §5 The workspace -/

/-- A client to join with: a replica of the document, or of none, with no
patch and no topology of its own. -/
structure Client.Fresh (document : WorkspaceDocument) (client : Client) : Prop where
  follows : Follows document client.mirror
  unpatched : client.mirror.pending.isEmpty = true
  spares : (client.mirror.fastPath.keys.all fun key => !isTopology key) = true

instance (document : WorkspaceDocument) (client : Client) : Decidable (client.Fresh document) :=
  decidable_of_iff
    ((client.mirror.epoch = some document.epoch →
        document.named client.mirror.stateNum = some client.mirror.entries) ∧
      client.mirror.pending.isEmpty = true ∧
      (client.mirror.fastPath.keys.all fun key => !isTopology key) = true)
    ⟨fun h => ⟨h.1, h.2.1, h.2.2⟩, fun h => ⟨h.follows, h.unpatched, h.spares⟩⟩

theorem sound_start {document : WorkspaceDocument} {client : Client} (hcaps : document.WithinCaps)
    (h : client.Fresh document) : WorkspaceChannel.Sound document (.start document client) := by
  have hnone : client.mirror.pending = [] := List.isEmpty_iff.mp h.unpatched
  refine ⟨WorkspaceChannel.inv_start hcaps h.follows, ⟨?_, ?_, ?_, .inl (.inl rfl)⟩, ?_, rfl⟩
  · simp [WorkspaceChannel.start, hnone]
  · intro patch hpatch
    simp [WorkspaceChannel.start, hnone] at hpatch
  · intro patch hpatch
    simp [WorkspaceChannel.start, hnone] at hpatch
  · intro key hkey
    have hall := List.all_eq_true.mp h.spares
    refine Std.ExtTreeMap.getElem?_eq_none fun hmem => ?_
    have hspared := hall key (Std.ExtTreeMap.mem_keys.mpr hmem)
    simp [hkey] at hspared

namespace Workspace

variable {w : Workspace}

structure Sound (w : Workspace) : Prop where
  caps : w.document.WithinCaps
  channels : ∀ c ∈ w.channels, c.Sound w.document

/-- A step every party is free to take: a client joins with no patches, the
document stays within the caps, and a channel loses nothing and strands
nothing. -/
def Heeded (w : Workspace) : WorkspaceOp → Prop
  | .join client => client.Fresh w.document
  | .mutate next => next.WithinCaps
  | .intent _ (.applied written) => written.WithinCaps
  | .intent _ (.rejected _) => True
  | .channel i op => ∀ c ∈ w.channels[i]?, own c op = true → c.Undisturbed op ∧ c.Retires op

theorem Sound.bump (h : w.Sound) {next : HostWorkspaceState} (hnext : next.WithinCaps) :
    (w.bump next).Sound where
  caps := h.caps.advance hnext
  channels c hc := by
    obtain ⟨old, hold, rfl⟩ := List.mem_map.mp hc
    exact (h.channels old hold).bump hnext

theorem Sound.modify (h : w.Sound) {f : WorkspaceChannel → WorkspaceChannel} {i : Nat}
    (hf : ∀ c ∈ w.channels[i]?, (f c).Sound w.document) :
    ({ w with channels := w.channels.modify i f } : Workspace).Sound where
  caps := h.caps
  channels c hc := by
    obtain ⟨j, hj, rfl⟩ := List.mem_iff_getElem.mp hc
    have hlt : j < w.channels.length := by simpa using hj
    rw [List.getElem_modify]
    split
    case isTrue heq =>
      subst heq
      exact hf _ (List.getElem?_eq_getElem hlt)
    case isFalse => exact h.channels _ (List.getElem_mem hlt)

theorem Sound.applyIntent (h : w.Sound) {outcome : IntentOutcome} {i : Nat}
    (hok : w.Heeded (.intent i outcome)) : (w.applyIntent outcome).2.Sound := by
  cases outcome with
  | applied written =>
    simp only [Workspace.applyIntent]
    split
    case isTrue => exact h.bump hok
    case isFalse => exact h
  | rejected status => exact h

theorem Sound.step (h : w.Sound) (op : WorkspaceOp) (hok : w.Heeded op) : (w.step op).Sound := by
  cases op with
  | join client =>
    refine ⟨h.caps, fun c hc => ?_⟩
    rcases List.mem_append.mp hc with hold | hnew
    · exact h.channels c hold
    · rw [List.mem_singleton.mp hnew]
      exact sound_start h.caps hok
  | mutate next => exact h.bump hok
  | intent i outcome =>
    simp only [Workspace.step]
    split
    case isTrue =>
      have hnext := h.applyIntent hok
      exact hnext.modify fun c hc => (hnext.channels c (List.mem_of_getElem? hc)).hear _
    case isFalse => exact h
  | channel i op =>
    refine h.modify fun c hc => ?_
    have hsound := h.channels c (List.mem_of_getElem? hc)
    split
    case isTrue hown => exact hsound.step hown (hok c hc hown)
    case isFalse => exact hsound

/-- In every run of a host and its clients whose steps lose no frame and
strand no confirmed patch, whenever every channel is at rest every client
shows the host's topology. -/
theorem edits_converge (document : WorkspaceDocument) (hcaps : document.WithinCaps)
    (ops : List WorkspaceOp) (hops : Meets step Heeded (start document) ops)
    (hrest : ∀ c ∈ (run step (start document) ops).channels, c.AtRest) :
    ∀ c ∈ (run step (start document) ops).channels,
      SameTopology c.client.mirror.resolved (run step (start document) ops).document.state := by
  have hsound : (run step (start document) ops).Sound :=
    hops.invariant Sound (fun w op hok h => h.step op hok)
      ⟨hcaps, fun c hc => absurd hc List.not_mem_nil⟩
  exact fun c hc => (hsound.channels c hc).resolved_of_rest (hrest c hc)

/-! ### Two runs of two clients -/

instance (c : WorkspaceChannel) : (op : ChannelOp) → Decidable (c.Retires op)
  | .receive => inferInstanceAs (Decidable (c.RetiresOn _))
  | .pump =>
    match hpump : c.pump with
    | .claimed offer planned =>
      decidable_of_iff (c.Settled ∨ c.Expects ∨ c.Brings offer planned)
        ⟨fun h o p heq => by
          rw [hpump] at heq
          obtain ⟨rfl, rfl⟩ := Pump.claimed.inj heq
          exact h,
          fun h => h offer planned hpump⟩
    | .parked | .draining | .taken _ | .resubscribed _ | .acked _ | .sending .. | .planned ..
    | .shipped _ => .isTrue fun o p heq => by
        rw [hpump] at heq
        contradiction
  | .offer _ | .deliverRoster _ | .deliverResult _ | .hear _ | .reply | .sendSubscribe | .stage ..
  | .sendIntent | .expirePending .. => .isTrue trivial

instance (w : Workspace) : (op : WorkspaceOp) → Decidable (w.Heeded op)
  | .join client => inferInstanceAs (Decidable (client.Fresh w.document))
  | .mutate next => inferInstanceAs (Decidable next.WithinCaps)
  | .intent _ (.applied written) => inferInstanceAs (Decidable written.WithinCaps)
  | .intent _ (.rejected _) => .isTrue trivial
  | .channel i op => inferInstanceAs (Decidable (∀ c ∈ w.channels[i]?, own c op = true →
      c.Undisturbed op ∧ c.Retires op))

open WorkspaceChannel (someId someClient pumps settle)

def anotherId : RawUuid := ⟨List.replicate 16 9, rfl⟩

/-- A session's name. -/
def someName : WorkspaceKey := ⟨1, someId, 0⟩

def named (value : UInt8) : HostWorkspaceState := .set .new someName [value]

def on (i : Nat) (ops : List ChannelOp) : List WorkspaceOp := ops.map (.channel i)

/-- Two clients join and are sent the document. -/
def joined : List WorkspaceOp :=
  [.join someClient, .join { someClient with clientInstanceId := anotherId }]
    ++ on 0 (pumps 16 ++ [.receive] ++ WorkspaceChannel.settle)
    ++ on 1 (pumps 16 ++ [.receive] ++ WorkspaceChannel.settle)

/-- A client renames the session, and the host does. -/
def renamed (i : Nat) (intentId : RawUuid) (value : UInt8) : List WorkspaceOp :=
  on i [.stage (fun _ => some ⟨[⟨someName, [value]⟩], []⟩) ⟨intentId, 0, []⟩ 0, .sendIntent]
    ++ [.intent i (.applied (named value))] ++ on i [.reply]

/-- What was offered is sent, folded in and acked. -/
def shown (i : Nat) : List WorkspaceOp :=
  on i (pumps 20 ++ [.receive, .receive] ++ WorkspaceChannel.settle)

def someWorkspace : WorkspaceDocument := ⟨someId, [], named 1⟩

/-- Each rename is shown to both before the next. -/
def inTurn : List WorkspaceOp :=
  joined ++ renamed 0 someId 2 ++ shown 0 ++ shown 1 ++ renamed 1 anotherId 1 ++ shown 1 ++ shown 0

theorem edits_converge_in_turn :
    (run step (start someWorkspace) inTurn).channels.length = 2 ∧
    ∀ c ∈ (run step (start someWorkspace) inTurn).channels,
      SameTopology c.client.mirror.resolved (run step (start someWorkspace) inTurn).document.state :=
  ⟨by decide +kernel,
    edits_converge someWorkspace (by unfold WorkspaceDocument.WithinCaps; decide +kernel) inTurn
      (by decide +kernel) (by decide +kernel)⟩

/-- The second client sees the first rename and undoes it before the first
client was sent anything. -/
def undone : List WorkspaceOp :=
  joined ++ renamed 0 someId 2 ++ shown 1 ++ renamed 1 anotherId 1 ++ shown 1 ++ shown 0

/-- The first client is sent its result and no frame, since nothing changed
since its ack. It shows its own rename for good. -/
theorem edits_diverge :
    (∀ c ∈ (run step (start someWorkspace) undone).channels, c.AtRest) ∧
    ∃ c ∈ (run step (start someWorkspace) undone).channels,
      ¬ SameTopology c.client.mirror.resolved
        (run step (start someWorkspace) undone).document.state := by
  refine ⟨by decide +kernel, ?_⟩
  have hfirst : ∃ c ∈ (run step (start someWorkspace) undone).channels,
      c.client.mirror.resolved.get someName
        ≠ (run step (start someWorkspace) undone).document.state.get someName := by decide +kernel
  obtain ⟨c, hc, hne⟩ := hfirst
  exact ⟨c, hc, fun hsame => hne (hsame someName (by decide))⟩

end Workspace

end SlopDesk.HostServer
