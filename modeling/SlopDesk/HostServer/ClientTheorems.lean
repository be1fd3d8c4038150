/-
SlopDesk.HostServer.ClientTheorems — what a client makes of the frames of
one document.

§1 numbers the states of a document, §2 says which frames are made of them,
§3 what a client does with one (`handle_cases`), and §4 what it ends up
holding once it has read a whole link.
-/
import SlopDesk.HostServer.Subscriber

namespace SlopDesk.HostServer

open SlopDesk.Base
open SlopDesk.Document
open SlopDesk.Wire

variable {d : WorkspaceDocument} {f : DocumentFrame}
variable {base s : HostWorkspaceState} {o : Offer} {m m' : WorkspaceMirror} {c c' : Client}

/-! ## §1 Numbered states -/

namespace WorkspaceDocument

variable {d : WorkspaceDocument} {n : Int} {s : HostWorkspaceState}

/-- The state a number names; 0 names the one nobody was told of. -/
def named (d : WorkspaceDocument) (n : Int) : Option HostWorkspaceState :=
  if n = 0 then some .new else if 0 < n then d.states[n.toNat - 1]? else none

theorem length_states (d : WorkspaceDocument) : (d.states.length : Int) = d.stateNum := by
  simp [states, stateNum]

@[simp] theorem states_advance (d : WorkspaceDocument) (next : HostWorkspaceState) :
    (d.advance next).states = d.states ++ [next] := rfl

theorem named_pos (h : 0 < n) : d.named n = d.states[n.toNat - 1]? := by
  rw [named, if_neg (Int.ne_of_gt h), if_pos h]

theorem named_le (h : d.named n = some s) : n ≤ d.stateNum := by
  unfold named at h
  split at h
  case isTrue hzero =>
    rw [hzero, stateNum]
    omega
  case isFalse =>
    split at h
    case isFalse => contradiction
    case isTrue hpos =>
      obtain ⟨hlt, _⟩ := List.getElem?_eq_some_iff.mp h
      have hlength := d.length_states
      omega

theorem stateNum_pos (d : WorkspaceDocument) : 0 < d.stateNum := by
  rw [stateNum]
  omega

theorem named_stateNum (d : WorkspaceDocument) : d.named d.stateNum = some d.state := by
  rw [named_pos d.stateNum_pos]
  have hindex : d.stateNum.toNat - 1 = d.earlier.length := by
    rw [stateNum]
    omega
  rw [hindex, states]
  simp

theorem named_advance (next : HostWorkspaceState) (h : d.named n = some s) :
    (d.advance next).named n = some s := by
  unfold named at h ⊢
  split
  case isTrue hzero => rwa [if_pos hzero] at h
  case isFalse hzero =>
    rw [if_neg hzero] at h
    split
    case isFalse hneg =>
      rw [if_neg hneg] at h
      contradiction
    case isTrue hpos =>
      rw [if_pos hpos] at h
      obtain ⟨hlt, _⟩ := List.getElem?_eq_some_iff.mp h
      rw [states_advance, List.getElem?_append_left hlt]
      exact h

theorem named_mem (h : d.named n = some s) : s = .new ∨ s ∈ d.states := by
  unfold named at h
  split at h
  case isTrue => exact .inl (Option.some.inj h).symm
  case isFalse =>
    grind

/-- Every state is within the caps of the decoders. -/
def WithinCaps (d : WorkspaceDocument) : Prop := ∀ s ∈ d.states, s.WithinCaps

theorem WithinCaps.named (h : d.WithinCaps) (hnamed : d.named n = some s) : s.WithinCaps := by
  rcases named_mem hnamed with rfl | hmem
  · exact ⟨by simp [HostWorkspaceState.sortedEntries, HostWorkspaceState.new],
      by simp [HostWorkspaceState.sortedEntries, HostWorkspaceState.new]⟩
  · exact h s hmem

theorem WithinCaps.advance (h : d.WithinCaps) {next : HostWorkspaceState} (hnext : next.WithinCaps) :
    (d.advance next).WithinCaps := by
  intro s hs
  rcases List.mem_append.mp hs with hold | hnew
  · exact h s hold
  · rwa [List.mem_singleton.mp hnew]

end WorkspaceDocument

instance (s : HostWorkspaceState) : Decidable s.WithinCaps :=
  decidable_of_iff (s.sortedEntries.length ≤ 65536 ∧
    ∀ e ∈ s.sortedEntries, e.value.length ≤ maxEntryValueBytes)
    ⟨fun h => ⟨h.1, h.2⟩, fun h => ⟨h.count, h.size⟩⟩

theorem withinCaps_diffFrom (hs : s.WithinCaps) (hbase : base.WithinCaps) : (s.diffFrom base).WithinCaps where
  sets := by
    have hcount := hs.count
    simp only [HostWorkspaceState.sortedEntries, List.length_map] at hcount
    simp only [HostWorkspaceState.diffFrom, List.length_map]
    exact Nat.le_trans (List.length_filter_le ..) hcount
  deletes := by
    have hcount := hbase.count
    simp only [HostWorkspaceState.sortedEntries, List.length_map] at hcount
    refine Nat.le_trans (List.length_filter_le ..) ?_
    rwa [HostWorkspaceState.keys, List.length_map]
  size := by
    intro e he
    apply hs.size
    simp only [HostWorkspaceState.diffFrom, List.mem_map] at he
    obtain ⟨entry, hentry, rfl⟩ := he
    exact List.mem_map_of_mem (List.mem_of_mem_filter hentry)

theorem eq_of_diffFrom_isEmpty (h : (s.diffFrom base).isEmpty) : base = s := by
  have hparts : (s.diffFrom base).sets = [] ∧ (s.diffFrom base).deletes = [] := by
    simpa [WorkspaceStateDiff.isEmpty] using h
  have happly := HostWorkspaceState.apply_diffFrom s base
  rw [HostWorkspaceState.apply, hparts.1, hparts.2] at happly
  exact happly

/-! ## §2 The frames of a document -/

/-- An offer of one of the document's states. -/
structure Offer.Genuine (d : WorkspaceDocument) (o : Offer) : Prop where
  epoch : o.epoch = d.epoch
  pos : 0 < o.stateNum
  named : d.named o.stateNum = some o.state

theorem genuine_offer (d : WorkspaceDocument) : d.offer.Genuine d :=
  ⟨rfl, d.stateNum_pos, d.named_stateNum⟩

theorem Offer.Genuine.advance (h : o.Genuine d) (next : HostWorkspaceState) : o.Genuine (d.advance next) :=
  ⟨h.epoch, h.pos, WorkspaceDocument.named_advance next h.named⟩

theorem Offer.Genuine.eq_offer (h : o.Genuine d) (hnum : o.stateNum = d.stateNum) : o = d.offer := by
  have hnamed := h.named
  rw [hnum, d.named_stateNum] at hnamed
  rw [WorkspaceDocument.offer, ← h.epoch, ← hnum, Option.some.inj hnamed]

/-- A snapshot or a diff. -/
def IsDocument (f : DocumentFrame) : Prop :=
  f.kind = WorkspaceEventKind.snapshot.asByte ∨ f.kind = WorkspaceEventKind.diff.asByte

instance (f : DocumentFrame) : Decidable (IsDocument f) := inferInstanceAs (Decidable (_ ∨ _))

/-- A roster or an intent's result: frames that are part of no document. -/
def IsLoose (f : DocumentFrame) : Prop :=
  f.kind = WorkspaceEventKind.presence.asByte ∨ f.kind = WorkspaceEventKind.intentResult.asByte

theorem IsLoose.not_document (h : IsLoose f) : ¬ IsDocument f := by
  rintro (hk | hk) <;> rw [IsLoose, hk] at h <;> simp +decide at h

/-- A frame a subscriber of `d` sends: a loose one, or one made of the states
of `d`. -/
inductive Carries (d : WorkspaceDocument) : DocumentFrame → Prop
  | loose (f : DocumentFrame) (kind : IsLoose f) : Carries d f
  | snapshot (o : Offer) (made : o.Genuine d) :
      Carries d ⟨WorkspaceEventKind.snapshot.asByte, o.epoch, 0, o.stateNum, encodeSnapshot o.state⟩
  | diff (o : Offer) (made : o.Genuine d) (base : Int) (old : HostWorkspaceState)
      (based : d.named base = some old) :
      Carries d ⟨WorkspaceEventKind.diff.asByte, o.epoch, base, o.stateNum,
        encodeDiff (o.state.diffFrom old)⟩

theorem Carries.advance (h : Carries d f) (next : HostWorkspaceState) : Carries (d.advance next) f := by
  cases h with
  | loose _ kind => exact .loose f kind
  | snapshot o made => exact .snapshot o (made.advance next)
  | diff o made base old based =>
    exact .diff o (made.advance next) base old (WorkspaceDocument.named_advance next based)

theorem Carries.newStateNum_le (h : Carries d f) (hdocument : IsDocument f) : f.newStateNum ≤ d.stateNum := by
  cases h with
  | loose _ kind => exact absurd hdocument kind.not_document
  | snapshot o made => exact WorkspaceDocument.named_le made.named
  | diff o made base old based => exact WorkspaceDocument.named_le made.named

/-- A replica of `d`, if it is one of its epoch: what it holds is what its
number names. -/
def Follows (d : WorkspaceDocument) (m : WorkspaceMirror) : Prop :=
  m.epoch = some d.epoch → d.named m.stateNum = some m.entries

/-! ## §3 One frame -/

/-- Host truth as another mirror has it. -/
structure SameTruth (m m' : WorkspaceMirror) : Prop where
  epoch : m'.epoch = m.epoch
  stateNum : m'.stateNum = m.stateNum
  entries : m'.entries = m.entries

theorem SameTruth.refl (m : WorkspaceMirror) : SameTruth m m := ⟨rfl, rfl, rfl⟩

theorem SameTruth.follows (h : SameTruth m m') (hm : Follows d m) : Follows d m' := by
  intro hepoch
  rw [h.epoch] at hepoch
  rw [h.stateNum, h.entries]
  exact hm hepoch

theorem sameTruth_noteIntentResult (m : WorkspaceMirror) (intentId : RawUuid) (applied : Bool) :
    SameTruth m (m.noteIntentResult intentId applied).2 := by
  unfold WorkspaceMirror.noteIntentResult
  split
  case h_1 => exact .refl m
  case h_2 => split <;> exact ⟨rfl, rfl, rfl⟩

theorem sameTruth_stage (c : Client) (proposed : HostWorkspaceState → Option WorkspaceStateDiff)
    (intent : WorkspaceIntent) (issuedAt : Float) :
    SameTruth c.mirror (c.stage proposed intent issuedAt).mirror := by
  unfold Client.stage WorkspaceMirror.stageIntent
  cases proposed c.mirror.resolved with
  | none => exact .refl _
  | some diff => exact ⟨rfl, rfl, rfl⟩

section
variable {m : WorkspaceMirror} {epoch : RawUuid} {n : Int} {s : HostWorkspaceState}

theorem apply_snapshot (hs : s.WithinCaps) : (m.apply 0 epoch 0 n (encodeSnapshot s)).1 = .applied n ∧
    (m.apply 0 epoch 0 n (encodeSnapshot s)).2.Holds epoch n s := by
  rcases m.apply_cases 0 epoch 0 n (encodeSnapshot s) with
    ⟨_, decoded, hdecode, houtcome, hholds⟩ | ⟨hkind, _⟩ | ⟨hkind, _⟩ | ⟨hrefused, _⟩
  · grind [decode_encode_snapshot]
  · contradiction
  · contradiction
  · simp [WorkspaceMirror.apply, WorkspaceMirror.applySnapshot, decode_encode_snapshot hs,
      ApplyOutcome.Refused] at hrefused

/-- A diff is folded in, was folded in before, or is not based on what the
mirror holds. -/
theorem apply_diff {base : Int} {old : HostWorkspaceState} (hs : s.WithinCaps)
    (hold : old.WithinCaps) (hbased : m.epoch = some epoch → base = m.stateNum → m.entries = old) :
    ((m.apply 1 epoch base n (encodeDiff (s.diffFrom old))).1 = .needsResubscribe ∧
      (m.apply 1 epoch base n (encodeDiff (s.diffFrom old))).2 = m) ∨
    ((m.apply 1 epoch base n (encodeDiff (s.diffFrom old))).1 = .ignored ∧
      (m.apply 1 epoch base n (encodeDiff (s.diffFrom old))).2 = m ∧
      m.epoch = some epoch ∧ n ≤ m.stateNum) ∨
    ((m.apply 1 epoch base n (encodeDiff (s.diffFrom old))).1 = .applied n ∧
      (m.apply 1 epoch base n (encodeDiff (s.diffFrom old))).2.Holds epoch n s) := by
  have hdecode := decode_encode_diff (withinCaps_diffFrom hs hold)
  simp only [WorkspaceMirror.apply, WorkspaceMirror.applyDiff, hdecode]
  by_cases hepoch : m.epoch = some epoch
  case neg => simp [hepoch]
  case pos =>
    by_cases hpast : n ≤ m.stateNum
    case pos => simp [hepoch, hpast]
    case neg =>
      by_cases hbase : base = m.stateNum
      case neg => simp [hepoch, hpast, hbase]
      case pos =>
        have happly : m.entries.apply (s.diffFrom old) = s := by
          rw [hbased hepoch hbase, HostWorkspaceState.apply_diffFrom]
        rw [if_neg (by simp [hepoch]), if_neg hpast, if_neg (by simp [hbase])]
        exact .inr (.inr ⟨rfl, by simp [hepoch], by simp, by simp [happly]⟩)

end

section
variable {d : WorkspaceDocument} {c : Client} {f : DocumentFrame}

theorem handle_loose (hf : IsLoose f) : SameTruth c.mirror (c.handle f).1.mirror ∧ (c.handle f).2 = [] := by
  have hresult : SameTruth c.mirror (c.noteIntentResult f.payload).mirror := by
    unfold Client.noteIntentResult
    split
    case h_1 => exact sameTruth_noteIntentResult ..
    case h_2 => exact .refl _
  rcases hf with hk | hk
  · rw [Client.handle, if_pos hk]
    exact ⟨.refl _, rfl⟩
  · rw [Client.handle, if_neg (by rw [hk]; decide), if_pos hk]
    exact ⟨hresult, rfl⟩

theorem handle_document (hf : IsDocument f) :
    (c.handle f).1 = { c with mirror :=
      (c.mirror.apply f.kind f.epoch f.baseStateNum f.newStateNum f.payload).2 } ∧
    (c.handle f).2 = (c.handle f).1.answer
      (c.mirror.apply f.kind f.epoch f.baseStateNum f.newStateNum f.payload).1 := by
  rcases hf with hk | hk <;>
    (rw [Client.handle, if_neg (by rw [hk]; decide), if_neg (by rw [hk]; decide)]; exact ⟨rfl, rfl⟩)

/-- The three things a client does with a frame: it has nothing to fold, it
asks for the document again, or it holds what the frame's number names and
says so. -/
theorem handle_cases (hcaps : d.WithinCaps) (hf : Carries d f) (hc : Follows d c.mirror) :
    (SameTruth c.mirror (c.handle f).1.mirror ∧ (c.handle f).2 = [] ∧
      (IsDocument f → c.mirror.epoch = some d.epoch ∧ f.newStateNum ≤ c.mirror.stateNum)) ∨
    (IsDocument f ∧ (c.handle f).1 = c ∧ (c.handle f).2 = [.subscribe c.subscribeRequest]) ∨
    (IsDocument f ∧ (c.handle f).2 = [.ack f.newStateNum] ∧
      ∃ s, d.named f.newStateNum = some s ∧
        (c.handle f).1.mirror.Holds d.epoch f.newStateNum s) := by
  cases hf with
  | loose _ kind =>
    obtain ⟨hsame, hnone⟩ := handle_loose (c := c) kind
    exact .inl ⟨hsame, hnone, fun h => absurd h kind.not_document⟩
  | snapshot o made =>
    have hdocument : IsDocument ⟨WorkspaceEventKind.snapshot.asByte, o.epoch, 0, o.stateNum,
      encodeSnapshot o.state⟩ := .inl rfl
    obtain ⟨hclient, hanswer⟩ := handle_document (c := c) hdocument
    obtain ⟨houtcome, hholds⟩ :=
      @apply_snapshot c.mirror o.epoch o.stateNum o.state (hcaps.named made.named)
    refine .inr (.inr ⟨hdocument, ?_, o.state, made.named, ?_⟩)
    · exact hanswer.trans (congrArg _ houtcome)
    · rw [hclient, ← made.epoch]
      exact hholds
  | diff o made base old based =>
    have hdocument : IsDocument ⟨WorkspaceEventKind.diff.asByte, o.epoch, base, o.stateNum,
      encodeDiff (o.state.diffFrom old)⟩ := .inr rfl
    obtain ⟨hclient, hanswer⟩ := handle_document (c := c) hdocument
    have hbased : c.mirror.epoch = some o.epoch → base = c.mirror.stateNum →
        c.mirror.entries = old := by
      intro hepoch hbase
      rw [made.epoch] at hepoch
      rw [hbase, hc hepoch] at based
      exact Option.some.inj based
    rcases apply_diff (n := o.stateNum) (hcaps.named made.named) (hcaps.named based) hbased with
      ⟨houtcome, hsame⟩ | ⟨houtcome, hsame, hepoch, hpast⟩ | ⟨houtcome, hholds⟩
    · have hself := hclient.trans (congrArg (fun m => { c with mirror := m }) hsame)
      refine .inr (.inl ⟨hdocument, hself, ?_⟩)
      rw [hanswer, hself]
      exact congrArg _ houtcome
    · have hself := hclient.trans (congrArg (fun m => { c with mirror := m }) hsame)
      refine .inl ⟨?_, hanswer.trans (congrArg _ houtcome), fun _ => ⟨made.epoch ▸ hepoch, hpast⟩⟩
      rw [hself]
      exact .refl _
    · refine .inr (.inr ⟨hdocument, hanswer.trans (congrArg _ houtcome), o.state, made.named, ?_⟩)
      rw [hclient, ← made.epoch]
      exact hholds

theorem follows_handle (hcaps : d.WithinCaps) (hf : Carries d f) (hc : Follows d c.mirror) :
    Follows d (c.handle f).1.mirror := by
  rcases handle_cases hcaps hf hc with ⟨hsame, _⟩ | ⟨_, hsame, _⟩ | ⟨_, _, s, hnamed, hholds⟩
  · exact hsame.follows hc
  · rwa [hsame]
  · intro _
    rw [hholds.stateNum, hholds.entries]
    exact hnamed

end

theorem apply_congr (h : SameTruth m m') (kind : UInt8) (epoch : RawUuid)
    (base new : Int) (payload : List UInt8) :
    (m'.apply kind epoch base new payload).1 = (m.apply kind epoch base new payload).1 ∧
    SameTruth (m.apply kind epoch base new payload).2 (m'.apply kind epoch base new payload).2 := by
  unfold WorkspaceMirror.apply
  split
  case h_1 =>
    unfold WorkspaceMirror.applySnapshot
    cases decodeSnapshot payload with
    | ok decoded => exact ⟨rfl, by simp, by simp, by simp⟩
    | fault e => exact ⟨rfl, h⟩
    | panicked => exact ⟨rfl, h⟩
  case h_2 =>
    simp only [WorkspaceMirror.applyDiff, h.epoch, h.stateNum]
    split
    case isTrue => exact ⟨rfl, h⟩
    case isFalse =>
      split
      case isTrue => exact ⟨rfl, h⟩
      case isFalse =>
        split
        case isTrue => exact ⟨rfl, h⟩
        case isFalse =>
          cases decodeDiff payload with
          | ok diff => exact ⟨rfl, by simp, by simp, by simp [h.entries]⟩
          | fault e => exact ⟨rfl, h⟩
          | panicked => exact ⟨rfl, h⟩
  case h_3 => exact ⟨rfl, rfl, rfl, rfl⟩
  case h_4 => exact ⟨rfl, h⟩

theorem handle_congr (h : SameTruth c.mirror c'.mirror) (f : DocumentFrame) :
    SameTruth (c.handle f).1.mirror (c'.handle f).1.mirror ∧
    ((∃ r, .subscribe r ∈ (c.handle f).2) → ∃ r, .subscribe r ∈ (c'.handle f).2) := by
  by_cases hpresence : f.kind = WorkspaceEventKind.presence.asByte
  case pos =>
    simp only [Client.handle, if_pos hpresence]
    exact ⟨h, fun ⟨_, hr⟩ => absurd hr List.not_mem_nil⟩
  case neg =>
    by_cases hresult : f.kind = WorkspaceEventKind.intentResult.asByte
    case pos =>
      have hc := (handle_loose (c := c) (f := f) (.inr hresult)).1
      have hc' := handle_loose (c := c') (f := f) (.inr hresult)
      refine ⟨⟨?_, ?_, ?_⟩, fun ⟨r, hr⟩ => ?_⟩
      · rw [hc'.1.epoch, hc.epoch, h.epoch]
      · rw [hc'.1.stateNum, hc.stateNum, h.stateNum]
      · rw [hc'.1.entries, hc.entries, h.entries]
      · rw [(handle_loose (c := c) (f := f) (.inr hresult)).2] at hr
        exact absurd hr List.not_mem_nil
    case neg =>
      obtain ⟨houtcome, htruth⟩ := apply_congr h f.kind f.epoch f.baseStateNum f.newStateNum f.payload
      simp only [Client.handle, if_neg hpresence, if_neg hresult, houtcome]
      refine ⟨htruth, fun ⟨r, hr⟩ => ?_⟩
      cases hanswer : (c.mirror.apply f.kind f.epoch f.baseStateNum f.newStateNum f.payload).1 with
      | needsResubscribe => exact ⟨_, List.mem_singleton.mpr rfl⟩
      | applied n =>
        rw [hanswer] at hr
        simp [Client.answer] at hr
      | ignored =>
        rw [hanswer] at hr
        simp [Client.answer] at hr
      | dropped =>
        rw [hanswer] at hr
        simp [Client.answer] at hr
      | reset =>
        rw [hanswer] at hr
        simp [Client.answer] at hr

theorem handle_nil_congr (h : SameTruth c.mirror c'.mirror) (f : DocumentFrame)
    (hnil : (c'.handle f).2 = []) : (c.handle f).2 = [] := by
  by_cases hpresence : f.kind = WorkspaceEventKind.presence.asByte
  case pos => simp [Client.handle, hpresence]
  case neg =>
    by_cases hresult : f.kind = WorkspaceEventKind.intentResult.asByte
    case pos => exact (handle_loose (.inr hresult)).2
    case neg =>
      obtain ⟨houtcome, _⟩ := apply_congr h f.kind f.epoch f.baseStateNum f.newStateNum f.payload
      simp only [Client.handle, if_neg hpresence, if_neg hresult, houtcome] at hnil ⊢
      cases hanswer : (c.mirror.apply f.kind f.epoch f.baseStateNum f.newStateNum f.payload).1 with
      | needsResubscribe =>
        rw [hanswer] at hnil
        simp [Client.answer] at hnil
      | applied n =>
        rw [hanswer] at hnil
        simp [Client.answer] at hnil
      | ignored => rfl
      | dropped => rfl
      | reset => rfl

/-! ## §4 A whole link -/

/-- A client that reads all of `link` ends up holding `state`, or asks for
the document again on the way. -/
def Reaches (state : HostWorkspaceState) (c : Client) : List DocumentFrame → Prop
  | [] => c.mirror.entries = state
  | f :: link => (∃ r, .subscribe r ∈ (c.handle f).2) ∨ Reaches state (c.handle f).1 link

section
variable {d : WorkspaceDocument} {c : Client} {link : List DocumentFrame}
  {state : HostWorkspaceState}

/-- What holds of the client while it reads `link` decides what it makes of
the rest. -/
theorem reaches_append {tail : List DocumentFrame} (Inv : Client → Prop)
    (hkeep : ∀ c, ∀ f ∈ link, Inv c → Inv (c.handle f).1)
    (hend : ∀ c, Inv c → Reaches state c tail) (h : Inv c) : Reaches state c (link ++ tail) := by
  induction link generalizing c with
  | nil => exact hend c h
  | cons f link ih =>
    exact .inr (ih (fun c g hg => hkeep c g (List.mem_cons_of_mem f hg))
      (hkeep c f (List.mem_cons_self ..) h))

theorem Reaches.congr {c' : Client} (h : Reaches state c link) (htruth : SameTruth c.mirror c'.mirror) :
    Reaches state c' link := by
  induction link generalizing c c' with
  | nil => exact htruth.entries.trans h
  | cons f link ih =>
    obtain ⟨hnext, hasks⟩ := handle_congr htruth f
    exact h.imp hasks fun hrest => ih hrest hnext

theorem Reaches.loose (h : Reaches state c link) {f : DocumentFrame} (hf : IsLoose f) :
    Reaches state c (link ++ [f]) := by
  induction link generalizing c with
  | nil => exact .inr ((handle_loose hf).1.entries.trans h)
  | cons g link ih => exact h.imp_right ih

end

end SlopDesk.HostServer
