/-
SlopDesk.Session.FanoutTheorems — what the fan-out's folds and latches
say, and what a pane keeps over any interleaving of its steps.

§1 the folds: the floor bounds every cursor from below, the frontier
every outbox-delivered one from above. §2 the eviction latch. §3 when a
held pane keeps a member the slow-member policy has not claimed. §4 what
the ring is acked to, beside a ledger of what each member has confirmed.
-/
import Mathlib.Data.List.InsertIdx
import SlopDesk.Session.Fanout
import SlopDesk.Wire.ReplayTheorems

namespace SlopDesk.Session

open SlopDesk.Base
open SlopDesk.Wire (ReplayBuffer)

namespace Fanout

variable (f : Fanout)
variable {id : SubscriberId} {m : Member}

/-! ## §1 The folds -/

theorem mem_ids : id ∈ f.ids ↔ ∃ m : Member, f.members[id]? = some m := by
  rw [ids, Std.ExtTreeMap.mem_keys, Std.ExtTreeMap.mem_iff_isSome_getElem?,
    Option.isSome_iff_exists]

theorem retentionFloor_eq_none : f.retentionFloor = none ↔ f.members = ∅ := by
  simp [retentionFloor]

theorem retentionFloor_le {floor : Int} (h : f.retentionFloor = some floor)
    (hm : f.members[id]? = some m) : floor ≤ m.acked := by
  obtain ⟨-, hle⟩ := List.min?_eq_some_iff.mp h
  exact hle _ (List.mem_map.mpr ⟨(id, m), BTreeMap.mem_toList.mpr hm, rfl⟩)

theorem acknowledge_of_not_member (h : f.members[id]? = none) (seq : Int) :
    f.acknowledge id seq = (f.retentionFloor, f) := by
  have hsame : f.members.modify id (fun m => { m with acked := seq }) = f.members := by
    grind
  simp [acknowledge, hsame]

theorem mem_outboxes {sent : Int} :
    sent ∈ ((f.members.toList.filter fun e => e.2.hasSender).map fun e => e.2.sent) ↔
      ∃ (id : SubscriberId) (m : Member), f.members[id]? = some m ∧ m.hasSender = true ∧
        m.sent = sent := by
  simp only [List.mem_map, List.mem_filter, Prod.exists, and_assoc]
  constructor
  · simp
  · simp

theorem le_frontier (hm : f.members[id]? = some m)
    (hsender : m.hasSender = true) : ∃ frontier, f.frontier = some frontier ∧ m.sent ≤ frontier := by
  have hmem := f.mem_outboxes.mpr ⟨id, m, hm, hsender, rfl⟩
  cases hfrontier : f.frontier with
  | none => simp [List.max?_eq_none_iff.mp hfrontier] at hmem
  | some frontier => exact ⟨frontier, rfl, (List.max?_eq_some_iff.mp hfrontier).2 _ hmem⟩

/-- When every outbox stays and ships no less, the frontier does not
recede. -/
theorem frontier_mono {f' : Fanout}
    (h : ∀ (id : SubscriberId) (m : Member), f.members[id]? = some m → m.hasSender = true →
      ∃ m' : Member, f'.members[id]? = some m' ∧ m'.hasSender = true ∧ m.sent ≤ m'.sent)
    {frontier : Int} (hfrontier : f.frontier = some frontier) :
    ∃ frontier', f'.frontier = some frontier' ∧ frontier ≤ frontier' := by
  obtain ⟨id, m, hm, hsender, rfl⟩ := f.mem_outboxes.mp (List.max?_eq_some_iff.mp hfrontier).1
  obtain ⟨m', hm', hsender', hle⟩ := h id m hm hsender
  obtain ⟨frontier', hfrontier', hle'⟩ := f'.le_frontier hm' hsender'
  exact ⟨frontier', hfrontier', Int.le_trans hle hle'⟩

/-! ## §2 The eviction latch -/

/-- The member as the latch leaves it. -/
def latched (m : Member) : Member := { m with evicting := true }

theorem lookup_latchOne (claimed : List SubscriberId × Fanout) (entry : Priced)
    (id : SubscriberId) : (latchOne claimed entry).2.members[id]? =
      if id = entry.id then claimed.2.members[id]?.map latched else claimed.2.members[id]? := by
  unfold latchOne
  cases hm : claimed.2.members[entry.id]? with
  | none =>
    grind
  | some m =>
    dsimp only
    split
    · rename_i hlatched
      split
      · rename_i hid
        simp [hid, hm, latched, ← hlatched]
      · rfl
    · rw [BTreeMap.lookup_insert]
      split
      · rename_i hid
        simp [hid, hm, latched]
      · rfl

/-- Whether the pass prices the id above the threshold. -/
def Loses (priced : List Priced) (threshold : Nat) (id : SubscriberId) : Prop :=
  threshold ≠ 0 ∧ ∃ entry ∈ priced, threshold < entry.retainedBytes ∧ entry.id = id

instance (priced : List Priced) (threshold : Nat) (id : SubscriberId) :
    Decidable (Loses priced threshold id) := inferInstanceAs (Decidable (_ ∧ _))

theorem lookup_foldl_latchOne (losers : List Priced) (claimed : List SubscriberId × Fanout)
    (id : SubscriberId) : (losers.foldl latchOne claimed).2.members[id]? =
      if ∃ entry ∈ losers, entry.id = id then claimed.2.members[id]?.map latched
      else claimed.2.members[id]? := by
  induction losers generalizing claimed with
  | nil => simp
  | cons entry losers ih =>
    rw [List.foldl_cons, ih, lookup_latchOne]
    have htwice : ∀ m : Option Member, (m.map latched).map latched = m.map latched := by
      intro m
      cases m <;> rfl
    by_cases hid : id = entry.id
    · simp [hid, htwice]
    · simp [hid, Ne.symm hid]

theorem lookup_latchEvicting (priced : List Priced) (threshold : Nat) (id : SubscriberId) :
    (f.latchEvicting priced threshold).2.members[id]? =
      if Loses priced threshold id then f.members[id]?.map latched else f.members[id]? := by
  unfold latchEvicting Loses
  split
  · rename_i hzero
    simp [hzero]
  · rename_i hpos
    rw [lookup_foldl_latchOne]
    simp [hpos, and_assoc]

end Fanout

namespace Pane

variable {p p' : Pane} {g : Member → Member} {id : SubscriberId} {acked : Int} {f f' : Fanout}

/-! ## §3 The spared member -/

/-- Somebody in a held pane is not on the way out. -/
def Spared (p : Pane) : Prop :=
  p.fanout.members ≠ ∅ →
    ∃ (id : SubscriberId) (m : Member), p.fanout.members[id]? = some m ∧ m.evicting = false

/-- A pane with a ledger beside it: the highest sequence each id has
confirmed since it was last admitted, and for each floor on its way to
the ring the members it was taken over that have stayed since. -/
structure Watched where
  pane : Pane
  confirmed : SubscriberId → Int
  waiting : List (Int × List SubscriberId)

namespace Watched

variable {pane : Pane} {w : Watched} {floor : Int}

def start (replay : ReplayBuffer) (lagBytes : Nat) : Watched :=
  ⟨.start replay lagBytes, fun _ => 0, []⟩

/-- The ids no floor taken so far speaks about any longer. -/
def forget (id : SubscriberId) (waiting : List (Int × List SubscriberId)) :
    List (Int × List SubscriberId) :=
  waiting.map fun e => (e.1, e.2.filter (· ≠ id))

/-- The ledger's confirmations. -/
def note (w : Watched) (id : SubscriberId) (seq : Int) : SubscriberId → Int :=
  fun id' => if id' = id then seq else w.confirmed id'

def step (w : Watched) (s : PaneStep) : Watched :=
  let pane := w.pane.step s
  match s with
  | .admitMember id acked => ⟨pane, w.note id acked, forget id w.waiting⟩
  | .admitJoiner id =>
    if w.pane.fanout.members.isEmpty then ⟨pane, w.confirmed, w.waiting⟩
    else ⟨pane, w.note id w.pane.replay.highestSeq, forget id w.waiting⟩
  | .retire id => ⟨pane, w.confirmed, forget id w.waiting⟩
  | .acknowledge id seq =>
    let floor := (w.pane.fanout.acknowledge id seq).1.getD seq
    ⟨pane, w.note id (max (w.confirmed id) seq), w.waiting ++ [(floor, pane.fanout.ids)]⟩
  | .takeFloor =>
    match w.pane.fanout.retentionFloor with
    | some floor => ⟨pane, w.confirmed, w.waiting ++ [(floor, pane.fanout.ids)]⟩
    | none => ⟨pane, w.confirmed, w.waiting⟩
  | .release n => ⟨pane, w.confirmed, w.waiting.eraseIdx n⟩
  | _ => ⟨pane, w.confirmed, w.waiting⟩

theorem pane_step (w : Watched) (s : PaneStep) : (w.step s).pane = w.pane.step s := by
  cases s <;> simp only [step] <;> split <;> rfl

theorem pane_run (w : Watched) (steps : List PaneStep) :
    (run step w steps).pane = run Pane.step w.pane steps := by
  induction steps generalizing w with
  | nil => rfl
  | cons s steps ih => rw [run_cons, run_cons, ih, pane_step]

/-- The recorded cursors are behind what was confirmed, and so is every
floor on its way to the ring, for the members it was taken over. -/
structure Sound (w : Watched) : Prop where
  acked_le : ∀ (id : SubscriberId) (m : Member), w.pane.fanout.members[id]? = some m →
    m.acked ≤ w.confirmed id
  floors : w.pane.floors = w.waiting.map (·.1)
  floor_le : ∀ e ∈ w.waiting, ∀ id ∈ e.2, e.1 ≤ w.confirmed id

theorem sound_start (replay : ReplayBuffer) (lagBytes : Nat) : Sound (start replay lagBytes) where
  acked_le id m h := by simp [start, Pane.start, Fanout.new] at h
  floors := rfl
  floor_le := by simp [start]

theorem Sound.mono (h : Sound w) (hfloors : pane.floors = w.pane.floors)
    (hacked : ∀ (id : SubscriberId) (m' : Member), pane.fanout.members[id]? = some m' →
      ∃ m : Member, w.pane.fanout.members[id]? = some m ∧ m'.acked = m.acked) :
    Sound ⟨pane, w.confirmed, w.waiting⟩ where
  acked_le id m' hm' := by
    obtain ⟨m, hm, heq⟩ := hacked id m' hm'
    rw [heq]
    exact h.acked_le id m hm
  floors := hfloors.trans h.floors
  floor_le := h.floor_le

theorem Sound.modify (h : Sound w)
    (hfloors : pane.floors = w.pane.floors) {id : SubscriberId} {g : Member → Member}
    (hp : pane.fanout.members = w.pane.fanout.members.modify id g)
    (hg : ∀ m, (g m).acked = m.acked) : Sound ⟨pane, w.confirmed, w.waiting⟩ := by
  refine h.mono hfloors fun id' m' hm' => ?_
  rw [hp, BTreeMap.lookup_modify] at hm'
  split at hm'
  · grind
  · exact ⟨m', hm', rfl⟩

theorem Sound.join (h : Sound w) (id : SubscriberId) (acked : Int) (hfloors : pane.floors = w.pane.floors)
    (hp : pane.fanout.members = w.pane.fanout.members.insert id { acked }) :
    Sound ⟨pane, w.note id acked, forget id w.waiting⟩ where
  acked_le id' m hm := by
    rw [hp, BTreeMap.lookup_insert] at hm
    dsimp only [note]
    split at hm
    · rename_i hid
      rw [if_pos hid, ← Option.some.inj hm]
    · rename_i hid
      rw [if_neg hid]
      exact h.acked_le id' m hm
  floors := by simp [hfloors, h.floors, forget]
  floor_le e he id' hid' := by
    obtain ⟨e', he', rfl⟩ := List.mem_map.mp he
    obtain ⟨hmem, hne⟩ := List.mem_filter.mp hid'
    simp only [note, if_neg (by simpa using hne)]
    exact h.floor_le e' he' id' hmem

theorem Sound.retire (h : Sound w) (id : SubscriberId) : Sound (w.step (.retire id)) where
  acked_le id' m hm := by
    simp only [step, Pane.step, Fanout.leave, BTreeMap.lookup_erase] at hm
    split at hm
    · simp at hm
    · exact h.acked_le id' m hm
  floors := by simp [step, Pane.step, h.floors, forget]
  floor_le e he id' hid' := by
    obtain ⟨e', he', rfl⟩ := List.mem_map.mp he
    exact h.floor_le e' he' id' (List.mem_filter.mp hid').1

theorem Sound.handOn (h : Sound w)
    (hfloor : ∀ (id : SubscriberId) (m : Member), w.pane.fanout.members[id]? = some m →
      floor ≤ m.acked) :
    Sound ⟨w.pane.handOn floor, w.confirmed, w.waiting ++ [(floor, w.pane.fanout.ids)]⟩ where
  acked_le := h.acked_le
  floors := by simp [Pane.handOn, h.floors]
  floor_le e he id hid := by
    rcases List.mem_append.mp he with he | he
    · exact h.floor_le e he id hid
    · obtain rfl := List.mem_singleton.mp he
      obtain ⟨m, hm⟩ := (Fanout.mem_ids _).mp hid
      exact Int.le_trans (hfloor id m hm) (h.acked_le id m hm)

theorem acknowledge_floor_le {f : Fanout} {id : SubscriberId} {seq : Int} {id' : SubscriberId}
    {m : Member} (hm : (f.acknowledge id seq).2.members[id']? = some m) :
    (f.acknowledge id seq).1.getD seq ≤ m.acked := by
  cases hfloor : (f.acknowledge id seq).1 with
  | none =>
    have hempty := (Fanout.retentionFloor_eq_none _).mp hfloor
    exact absurd hempty (BTreeMap.ne_empty_of_lookup hm)
  | some floor => exact Fanout.retentionFloor_le _ hfloor hm

theorem Sound.acknowledge (h : Sound w) (id : SubscriberId) (seq : Int) :
    Sound (w.step (.acknowledge id seq)) := by
  have hrecorded : Sound ⟨{ w.pane with fanout := (w.pane.fanout.acknowledge id seq).2 },
      w.note id (max (w.confirmed id) seq), w.waiting⟩ := by
    have hraised : ∀ id', w.confirmed id' ≤ w.note id (max (w.confirmed id) seq) id' := by
      intro id'
      simp only [note]
      split
      · grind
      · exact Int.le_refl _
    refine ⟨fun id' m hm => ?_, h.floors, fun e he id' hid' => ?_⟩
    · simp only [Fanout.acknowledge, BTreeMap.lookup_modify] at hm
      split at hm
      · rename_i hid
        obtain ⟨m', -, rfl⟩ := Option.map_eq_some_iff.mp hm
        simp only [note, if_pos hid]
        exact Int.le_max_right ..
      · exact Int.le_trans (h.acked_le id' m hm) (hraised id')
    · exact Int.le_trans (h.floor_le e he id' hid') (hraised id')
  exact hrecorded.handOn fun id' m hm => acknowledge_floor_le hm

theorem Sound.startSender (h : Sound w) (id : SubscriberId) (head : Int) :
    Sound (w.step (.startSender id head)) := by
  refine h.mono rfl fun id' m' hm' => ?_
  simp only [Pane.step, Fanout.startSender] at hm'
  cases hm : w.pane.fanout.members[id]? with
  | none =>
    rw [hm] at hm'
    exact ⟨m', hm', rfl⟩
  | some m =>
    grind

theorem Sound.latch (h : Sound w) (n : Nat) : Sound (w.step (.latch n)) := by
  have hsame : Sound ⟨w.pane.step (.latch n), w.confirmed, w.waiting⟩ := by
    simp only [Pane.step]
    cases hn : w.pane.priced[n]? with
    | none => exact h
    | some priced =>
      refine h.mono rfl fun id m' hm' => ?_
      rw [Fanout.lookup_latchEvicting] at hm'
      split at hm'
      · obtain ⟨m, hm, rfl⟩ := Option.map_eq_some_iff.mp hm'
        exact ⟨m, hm, rfl⟩
      · exact ⟨m', hm', rfl⟩
  exact hsame

theorem Sound.release (h : Sound w) (n : Nat) : Sound (w.step (.release n)) where
  acked_le id m hm := by
    refine h.acked_le id m ?_
    simp only [step, Pane.step] at hm
    split at hm <;> exact hm
  floors := by
    simp only [step, Pane.step]
    split
    · simp [h.floors, List.eraseIdx_map]
    · grind [h.floors, List.eraseIdx_of_length_le]
  floor_le e he id hid := h.floor_le e (List.mem_of_mem_eraseIdx he) id hid

theorem Sound.step (h : Sound w) (s : PaneStep) : Sound (w.step s) := by
  cases s with
  | admitMember id acked => exact h.join id acked rfl rfl
  | admitJoiner id =>
    simp only [Watched.step, Pane.step]
    split
    · exact h
    · exact h.join id _ rfl rfl
  | reserveId => exact h.mono rfl fun _ m' hm' => ⟨m', hm', rfl⟩
  | retire id => exact h.retire id
  | acknowledge id seq => exact h.acknowledge id seq
  | takeFloor =>
    simp only [Watched.step, Pane.step]
    cases hfloor : w.pane.fanout.retentionFloor with
    | none => exact h
    | some floor => exact h.handOn fun id m hm => Fanout.retentionFloor_le _ hfloor hm
  | release n => exact h.release n
  | sequence bytes => exact h.mono rfl fun _ m' hm' => ⟨m', hm', rfl⟩
  | startSender id head => exact h.startSender id head
  | clearSender id => exact h.modify rfl rfl fun _ => rfl
  | noteSent id seq =>
    refine h.modify rfl rfl fun m => ?_
    split <;> rfl
  | markExitDelivered id => exact h.modify rfl rfl fun _ => rfl
  | sampleLagging =>
    have hsame : Sound ⟨w.pane.step .sampleLagging, w.confirmed, w.waiting⟩ := by
      simp only [Pane.step]
      split
      · exact h
      · exact h.mono rfl fun _ m' hm' => ⟨m', hm', rfl⟩
    exact hsame
  | price n =>
    have hsame : Sound ⟨w.pane.step (.price n), w.confirmed, w.waiting⟩ := by
      simp only [Pane.step]
      split
      · exact h.mono rfl fun _ m' hm' => ⟨m', hm', rfl⟩
      · exact h
    exact hsame
  | latch n => exact h.latch n

@[simp] theorem length_forget (id : SubscriberId) (waiting : List (Int × List SubscriberId)) :
    (forget id waiting).length = waiting.length := by
  simp [forget]

theorem taken {s : PaneStep} {cover : List SubscriberId}
    (h : (w.step s).waiting = w.waiting ++ [(floor, cover)]) : cover = (w.step s).pane.fanout.ids ∧
      ∀ (id : SubscriberId) (m : Member), (w.step s).pane.fanout.members[id]? = some m →
        floor ≤ m.acked := by
  have hlength := congrArg List.length h
  rw [List.length_append, List.length_singleton] at hlength
  cases s with
  | acknowledge id seq =>
    have hlast := List.append_cancel_left h
    obtain ⟨hfloor, hcover⟩ := Prod.mk.inj (List.singleton_inj.mp hlast)
    refine ⟨hcover.symm, fun id' m hm => ?_⟩
    rw [← hfloor]
    exact acknowledge_floor_le hm
  | takeFloor =>
    simp only [Watched.step, Pane.step] at h hlength ⊢
    cases hfloor : w.pane.fanout.retentionFloor with
    | none =>
      rw [hfloor] at hlength
      simp at hlength
    | some floor' =>
      rw [hfloor] at h
      have hlast := List.append_cancel_left h
      obtain ⟨rfl, hcover⟩ := Prod.mk.inj (List.singleton_inj.mp hlast)
      exact ⟨hcover.symm, fun id m hm => Fanout.retentionFloor_le _ hfloor hm⟩
  | release n =>
    have hle : (w.step (.release n)).waiting.length ≤ w.waiting.length :=
      List.length_eraseIdx_le _ _
    omega
  | admitJoiner id =>
    simp only [Watched.step] at hlength
    split at hlength <;> simp at hlength
  | _ => simp [Watched.step] at hlength

end Watched

/-- The step takes a member off the outboxes: it leaves, another takes its
id, or its sender is cleared. -/
def EndsSender (p : Pane) (s : PaneStep) : Prop :=
  ∃ (id : SubscriberId) (m : Member), p.fanout.members[id]? = some m ∧ m.hasSender = true ∧
    (s = .retire id ∨ s = .clearSender id ∨ s = .admitJoiner id ∨
      ∃ acked, s = .admitMember id acked)

theorem keeps_modify (hf' : f'.members = f.members.modify id g)
    (hg : ∀ m, m.hasSender = true → (g m).hasSender = true ∧ m.sent ≤ (g m).sent) :
    ∀ (id' : SubscriberId) (m : Member), f.members[id']? = some m → m.hasSender = true →
      ∃ m' : Member, f'.members[id']? = some m' ∧ m'.hasSender = true ∧ m.sent ≤ m'.sent := by
  intro id' m hm hsender
  rw [hf', BTreeMap.lookup_modify, hm]
  split
  · exact ⟨g m, rfl, hg m hsender⟩
  · exact ⟨m, rfl, hsender, Int.le_refl _⟩

theorem keeps_same (h : f'.members = f.members) :
    ∀ (id' : SubscriberId) (m : Member), f.members[id']? = some m → m.hasSender = true →
      ∃ m' : Member, f'.members[id']? = some m' ∧ m'.hasSender = true ∧ m.sent ≤ m'.sent := by
  intro id' m hm hsender
  exact ⟨m, by rw [h, hm], hsender, Int.le_refl _⟩

theorem keeps_join (hf' : f'.members = f.members.insert id { acked })
    (hfree : ∀ m : Member, f.members[id]? = some m → m.hasSender = false) :
    ∀ (id' : SubscriberId) (m : Member), f.members[id']? = some m → m.hasSender = true →
      ∃ m' : Member, f'.members[id']? = some m' ∧ m'.hasSender = true ∧ m.sent ≤ m'.sent := by
  intro id' m hm hsender
  by_cases hid : id' = id
  · rw [hid] at hm
    simp [hfree m hm] at hsender
  · exact ⟨m, by rw [hf', BTreeMap.lookup_insert, if_neg hid, hm], hsender, Int.le_refl _⟩

theorem keeps_outboxes {s : PaneStep} (h : ¬ EndsSender p s) (id : SubscriberId)
    (m : Member) (hm : p.fanout.members[id]? = some m) (hsender : m.hasSender = true) :
    ∃ m' : Member, (p.step s).fanout.members[id]? = some m' ∧ m'.hasSender = true ∧
      m.sent ≤ m'.sent := by
  have hfree : ∀ (id : SubscriberId) (m : Member), p.fanout.members[id]? = some m →
      (s = .retire id ∨ s = .clearSender id ∨ s = .admitJoiner id ∨
        ∃ acked, s = .admitMember id acked) → m.hasSender = false := by
    intro id m hm hs
    by_contra hsender
    exact h ⟨id, m, hm, by simpa using hsender, hs⟩
  cases s with
  | admitMember id' acked =>
    exact keeps_join rfl (fun m hm => hfree id' m hm (by simp)) id m hm hsender
  | admitJoiner id' =>
    simp only [step]
    split
    · exact ⟨m, hm, hsender, Int.le_refl _⟩
    · exact keeps_join rfl (fun m hm => hfree id' m hm (by simp)) id m hm hsender
  | reserveId => exact keeps_same rfl id m hm hsender
  | retire id' =>
    have hne : id ≠ id' := by
      rintro rfl
      simp [hfree id m hm (by simp)] at hsender
    refine ⟨m, ?_, hsender, Int.le_refl _⟩
    simp only [step, Fanout.leave, BTreeMap.lookup_erase, if_neg hne, hm]
  | acknowledge id' seq =>
    refine keeps_modify rfl (fun _ hs => ?_) id m hm hsender
    exact ⟨hs, Int.le_refl _⟩
  | takeFloor =>
    simp only [step]
    split <;> exact keeps_same rfl id m hm hsender
  | release n =>
    grind [step]
  | sequence bytes => exact keeps_same rfl id m hm hsender
  | startSender id' head =>
    simp only [step, Fanout.startSender]
    cases hm' : p.fanout.members[id']? with
    | none => exact ⟨m, hm, hsender, Int.le_refl _⟩
    | some m' =>
      grind
  | clearSender id' =>
    have hne : id ≠ id' := by
      rintro rfl
      simp [hfree id m hm (by simp)] at hsender
    refine ⟨m, ?_, hsender, Int.le_refl _⟩
    simp only [step, Fanout.clearSender, BTreeMap.lookup_modify, if_neg hne, hm]
  | noteSent id' seq =>
    refine keeps_modify rfl (fun m hs => ?_) id m hm hsender
    split
    · rename_i hlt
      exact ⟨hs, Int.le_of_lt hlt⟩
    · exact ⟨hs, Int.le_refl _⟩
  | markExitDelivered id' =>
    refine keeps_modify rfl (fun _ hs => ?_) id m hm hsender
    exact ⟨hs, Int.le_refl _⟩
  | sampleLagging =>
    grind [step]
  | price n =>
    grind [step]
  | latch n =>
    simp only [step]
    split
    · rename_i priced hn
      by_cases hloses : Fanout.Loses priced p.lagBytes id
      · refine ⟨Fanout.latched m, ?_, hsender, Int.le_refl _⟩
        rw [Fanout.lookup_latchEvicting, if_pos hloses, hm, Option.map_some]
      · refine ⟨m, ?_, hsender, Int.le_refl _⟩
        rw [Fanout.lookup_latchEvicting, if_neg hloses, hm]
    · exact ⟨m, hm, hsender, Int.le_refl _⟩

/-- What one step of a watched pane does to retention and to the frontier. -/
structure RetainsForSlowest (w : Watched) (s : PaneStep) : Prop where
  /-- The ring is acked only to a floor on its way there, which nobody it
  was taken over and who is still here has not confirmed. -/
  release : ∀ n floor cover, s = .release n → w.waiting[n]? = some (floor, cover) →
    w.pane.floors[n]? = some floor ∧
      (w.step s).pane.replay.ackedSeq ≤ max w.pane.replay.ackedSeq floor ∧
      ∀ id ∈ cover, floor ≤ w.confirmed id
  /-- No other step acks the ring. -/
  unreleased : (∀ n, s ≠ .release n) →
    (w.step s).pane.replay.ackedSeq = w.pane.replay.ackedSeq
  /-- A floor is taken over the whole roster and is behind each cursor of it. -/
  taken : ∀ floor cover, (w.step s).waiting = w.waiting ++ [(floor, cover)] →
    cover = (w.step s).pane.fanout.ids ∧
      ∀ (id : SubscriberId) (m : Member), (w.step s).pane.fanout.members[id]? = some m →
        floor ≤ m.acked
  /-- An ack of a member that has left moves no cursor, and while others
  remain it hands on their floor. -/
  departed : ∀ id seq, s = .acknowledge id seq → w.pane.fanout.members[id]? = none →
    (w.step s).pane.fanout = w.pane.fanout ∧ ∀ floor, w.pane.fanout.retentionFloor = some floor →
      (w.step s).pane.floors = w.pane.floors ++ [floor]
  /-- The frontier bounds what each outbox has shipped. -/
  frontier_ge : ∀ (id : SubscriberId) (m : Member), w.pane.fanout.members[id]? = some m →
    m.hasSender = true → ∃ frontier, w.pane.fanout.frontier = some frontier ∧ m.sent ≤ frontier
  /-- The frontier recedes only with an outbox. -/
  frontier_mono : ¬ EndsSender w.pane s → ∀ frontier, w.pane.fanout.frontier = some frontier →
    ∃ frontier', (w.step s).pane.fanout.frontier = some frontier' ∧ frontier ≤ frontier'

theorem ackedSeq_retire (b : ReplayBuffer) (released : List Wire.TailEntry) :
    (b.retire released).ackedSeq = b.ackedSeq := by
  have hmove : (b.moveToRing released).ackedSeq = b.ackedSeq := by
    unfold ReplayBuffer.moveToRing
    split
    · exact (ReplayBuffer.ringOnly_attach _).ackedSeq
    · rfl
  unfold ReplayBuffer.retire
  split
  · exact (ReplayBuffer.ringOnly_evict _).ackedSeq.trans hmove
  · rfl

theorem ackedSeq_ack_le (b : ReplayBuffer) (upTo : Int) : (b.ack upTo).ackedSeq ≤ max b.ackedSeq upTo := by
  have hclamp : min upTo b.highestSeq ≤ max b.ackedSeq upTo :=
    Int.le_trans (Int.min_le_left ..) (Int.le_max_right ..)
  unfold ReplayBuffer.ack
  dsimp only
  split
  · exact Int.le_max_left ..
  · split
    · exact hclamp
    · exact Int.le_trans (Int.le_of_eq (ackedSeq_retire _ _)) hclamp

/-- Whatever joins, leaves, acks and evictions came before, in whatever
interleaving. -/
theorem retention_follows_slowest (replay : ReplayBuffer) (lagBytes : Nat) (steps : List PaneStep)
    (s : PaneStep) :
    (run Watched.step (Watched.start replay lagBytes) steps).pane =
        run step (start replay lagBytes) steps ∧
      RetainsForSlowest (run Watched.step (Watched.start replay lagBytes) steps) s := by
  refine ⟨Watched.pane_run _ _, ?_⟩
  have hsound := run_invariant Watched.Sound (fun _ s h => h.step s)
    (Watched.sound_start replay lagBytes) steps
  generalize run Watched.step (Watched.start replay lagBytes) steps = w at hsound
  constructor
  · rintro n floor cover rfl hwaiting
    have hfloor : w.pane.floors[n]? = some floor := by simp [hsound.floors, hwaiting]
    refine ⟨hfloor, ?_, hsound.floor_le _ (List.mem_of_getElem? hwaiting)⟩
    simp only [Watched.pane_step, step, hfloor]
    exact ackedSeq_ack_le _ _
  · intro hother
    rw [Watched.pane_step]
    cases s with
    | release n => exact absurd rfl (hother n)
    | admitJoiner | takeFloor | sampleLagging | price | latch =>
      simp only [step]
      split <;> rfl
    | _ => rfl
  · intro floor cover htaken
    exact Watched.taken htaken
  · rintro id seq rfl hgone
    have hsame := Fanout.acknowledge_of_not_member w.pane.fanout hgone seq
    refine ⟨by simp only [Watched.pane_step, step, hsame, handOn], fun floor hfloor => ?_⟩
    simp only [Watched.pane_step, step, hsame, handOn, hfloor, Option.getD_some]
  · intro id m hm hsender
    exact Fanout.le_frontier _ hm hsender
  · intro hends frontier hfrontier
    rw [Watched.pane_step]
    exact Fanout.frontier_mono _ (keeps_outboxes hends) hfrontier

/-- The pane after some steps from an empty one. -/
def after (steps : List PaneStep) : Pane := run step (start (.withCaps 100000 100000 0) 0) steps

/-- The frontier recedes when the fastest member leaves, it leaves out a
member that is served inline, and the ack of the last one to leave is
applied as it stands. -/
theorem frontier_recedes :
    (after [.admitMember 1 0, .startSender 1 10, .admitMember 2 0,
        .startSender 2 50]).fanout.frontier = some 50 ∧
      (after [.admitMember 1 0, .startSender 1 10, .admitMember 2 0, .startSender 2 50,
        .retire 2]).fanout.frontier = some 10 ∧
      (after [.admitMember 1 0, .noteSent 1 5]).fanout.members.toList = [(1, { sent := 5 })] ∧
      (after [.admitMember 1 0, .noteSent 1 5]).fanout.frontier = none ∧
      (after [.admitMember 1 0, .sequence [7], .retire 1]).replay.ackedSeq = 0 ∧
      (after [.admitMember 1 0, .sequence [7], .retire 1, .acknowledge 1 1,
        .release 0]).replay.ackedSeq = 1 := by
  decide +kernel

end Pane

end SlopDesk.Session
