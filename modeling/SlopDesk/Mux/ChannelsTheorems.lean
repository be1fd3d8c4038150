/-
SlopDesk.Mux.ChannelsTheorems — the ring of closed ids is exact, and a
closed id stays closed until the ring has turned over.

§1 the five things an operation can do to the table (`effect_step`), and
from them that only an open or an allocate makes an entry. §2 the ring in
order is a bounded queue, and recording an id in it forgets the oldest.
§3 the invariant: the queue holds the terminal ids, each once. §4 the
ids that became terminal over a run, and the queue as the latest of them.

§3 and §4 ask that `allocate` not hand out an id that is in the ring
(`AllocatesFresh`). Nothing in `allocate` checks this: an id the peer
opened and closed beforehand is handed out again.
-/
import SlopDesk.Mux.Channels
import SlopDesk.Base.BoundedQueue
import SlopDesk.Base.Runs

namespace SlopDesk.Mux.ChannelTable

open SlopDesk.Base
open SlopDesk.Base.BoundedQueue

variable {id : UInt32} {op : Op} {t t' : ChannelTable}

/-! ## §1 What an operation can do -/

@[simp] theorem stateOf_setState (t : ChannelTable) (id id' : UInt32) (state : ChannelState) :
    (t.setState id state).stateOf id' = if id' = id then some state else t.stateOf id' :=
  HashMap.lookup_insert t.states id id' state

@[simp] theorem stateOf_lastAllocated (t : ChannelTable) (id id' : UInt32) :
    { t with lastAllocated := id }.stateOf id' = t.stateOf id' := rfl

/-- The entry is `HalfClosed` or `Closed`. -/
def isTerminal (t : ChannelTable) (id : UInt32) : Bool :=
  match t.stateOf id with
  | some .halfClosed | some .closed => true
  | some .idle | some .open | none => false

/-- The operations that may give `id` its first entry. -/
def Registers (t : ChannelTable) (id : UInt32) (op : Op) : Prop :=
  op = .open id ∨ (∃ accepted, op = .route .channelOpen id accepted) ∨
    (op = .allocate ∧ id = t.nextId)

/-- What one operation does to the table. -/
inductive Effect (t : ChannelTable) (op : Op) : ChannelTable → Prop
  | unchanged : Effect t op t
  | allocated : op = .allocate →
      Effect t op ({ t with lastAllocated := t.nextId }.setState t.nextId .idle)
  | opened (id : UInt32) : t.isTerminal id = false → (t.stateOf id = none → t.Registers id op) →
      Effect t op (t.setState id .open)
  | terminated (id : UInt32) (state : ChannelState) : t.stateOf id ≠ none →
      t.isTerminal id = false → state = .halfClosed ∨ state = .closed →
      Effect t op ((t.setState id state).noteTerminal id)
  | finished (id : UInt32) : t.stateOf id = some .halfClosed →
      Effect t op (t.setState id .closed)

theorem effect_open (hreg : t.stateOf id = none → t.Registers id op) : Effect t op (t.open id) := by
  unfold «open»
  split
  · rename_i hid
    exact .opened id (by simp [isTerminal, hid]) hreg
  · rename_i hid
    exact .opened id (by simp [isTerminal, hid]) hreg
  · rename_i hid
    exact .opened id (by simp [isTerminal, hid]) hreg
  · exact .unchanged
  · exact .unchanged

theorem effect_reject (t : ChannelTable) (id : UInt32) (op : Op) : Effect t op (t.reject id).2 := by
  unfold reject
  split
  · rename_i hid
    exact .terminated id .closed (by simp [hid]) (by simp [isTerminal, hid]) (.inr rfl)
  · rename_i hid
    exact .terminated id .closed (by simp [hid]) (by simp [isTerminal, hid]) (.inr rfl)
  · exact .unchanged
  · exact .unchanged
  · exact .unchanged

theorem effect_advanceClose (t : ChannelTable) (id : UInt32) (op : Op) :
    Effect t op (t.advanceClose id).2 := by
  unfold advanceClose
  split
  · rename_i hid
    exact .terminated id .halfClosed (by simp [hid]) (by simp [isTerminal, hid]) (.inl rfl)
  · rename_i hid
    exact .terminated id .halfClosed (by simp [hid]) (by simp [isTerminal, hid]) (.inl rfl)
  · rename_i hid
    exact .finished id hid
  · exact .unchanged
  · exact .unchanged

theorem effect_step (t : ChannelTable) (op : Op) : Effect t op (t.step op) := by
  cases op with
  | allocate => exact .allocated rfl
  | «open» id => exact effect_open fun _ => .inl rfl
  | reject id => exact effect_reject t id _
  | localClose id => exact effect_advanceClose t id _
  | remoteClose id => exact effect_advanceClose t id _
  | route kind id accepted =>
    cases kind with
    | channelData =>
      simp only [step, route]
      split <;> exact .unchanged
    | channelOpen => exact effect_open fun _ => .inr (.inl ⟨accepted, rfl⟩)
    | channelOpenAck =>
      cases accepted with
      | false => exact effect_reject t id _
      | true =>
        simp only [step, route, if_true]
        split
        · rename_i hid
          exact effect_open fun hnone => by simp [hnone] at hid
        · exact .unchanged
    | channelClose => exact effect_advanceClose t id _
    | windowAdjust => exact .unchanged

theorem stateOf_noteTerminal_none {id' : UInt32}
    (h : t.stateOf id' = none) : (t.noteTerminal id).stateOf id' = none := by
  have herase : ∀ evicted, AList.lookup id' (t.states.erase evicted) = none := by
    intro evicted
    rw [HashMap.lookup_erase]
    split
    · rfl
    · exact h
  unfold noteTerminal
  split
  · exact h
  · split
    · split
      · exact herase _
      · exact h
    · exact h

theorem registers_of_stateOf_step (hnone : t.stateOf id = none) (hsome : (t.step op).stateOf id ≠ none) :
    t.Registers id op := by
  have heffect := effect_step t op
  generalize t.step op = t' at hsome heffect
  cases heffect with
  | unchanged => exact absurd hnone hsome
  | allocated hop =>
    refine .inr (.inr ⟨hop, ?_⟩)
    by_contra hne
    exact hsome (by simp [hne, hnone])
  | opened id' _ hreg =>
    by_cases hid : id = id'
    · subst hid
      exact hreg hnone
    · exact absurd (by simp [hid, hnone]) hsome
  | terminated id' state hknown _ _ =>
    refine absurd (stateOf_noteTerminal_none ?_) hsome
    have hid : id ≠ id' := by
      rintro rfl
      exact hknown hnone
    simp [hid, hnone]
  | finished id' hhalf =>
    have hid : id ≠ id' := by
      rintro rfl
      simp [hnone] at hhalf
    exact absurd (by simp [hid, hnone]) hsome

/-! ## §2 The ring in order -/

/-- The ids in the ring, the oldest first. -/
def queue (t : ChannelTable) : List UInt32 := inOrder t.terminalRing t.terminalRingHead

@[simp] theorem queue_setState (t : ChannelTable) (id : UInt32) (state : ChannelState) :
    (t.setState id state).queue = t.queue := rfl

/-- The ring fills its slots before it overwrites any. -/
structure RingShape (t : ChannelTable) : Prop where
  length_le : t.terminalRing.length ≤ terminalRingCap
  head_lt : t.terminalRingHead < terminalRingCap
  filling : t.terminalRing.length < terminalRingCap → t.terminalRingHead = 0

theorem terminalRingCap_pos : 0 < terminalRingCap := by decide

theorem noteTerminal_of_lt (hshape : RingShape t) (id : UInt32) (h : t.queue.length < terminalRingCap) :
    (t.noteTerminal id).queue = t.queue ++ [id] ∧ (t.noteTerminal id).states = t.states := by
  have hlt : t.terminalRing.length < terminalRingCap := by simpa [queue] using h
  unfold noteTerminal queue
  rw [if_pos hlt, hshape.filling hlt]
  simp

theorem noteTerminal_of_full (hshape : RingShape t) {oldest : UInt32}
    {rest : List UInt32} (hqueue : t.queue = oldest :: rest)
    (h : t.queue.length = terminalRingCap) (hne : oldest ≠ id) : (t.noteTerminal id).queue = rest ++ [id] ∧
      (t.noteTerminal id).states = t.states.erase oldest := by
  have hlen : t.terminalRing.length = terminalRingCap := by simpa [queue] using h
  have hhead : t.terminalRingHead < t.terminalRing.length := hlen ▸ hshape.head_lt
  have hslot : t.terminalRing[t.terminalRingHead]? = some oldest := by
    have hcons := inOrder_eq_cons hhead
    rw [show inOrder _ _ = oldest :: rest from hqueue, List.cons.injEq] at hcons
    rw [List.getElem?_eq_getElem hhead, hcons.1]
  unfold noteTerminal queue
  rw [if_neg (by omega)]
  constructor
  · rw [← hlen, inOrder_overwrite hhead, show inOrder _ _ = oldest :: rest from hqueue]
    simp
  · simp [hslot, hne]

theorem RingShape.noteTerminal (h : RingShape t) (id : UInt32) : RingShape (t.noteTerminal id) := by
  obtain ⟨hlen, hhead, hfilling⟩ := h
  unfold ChannelTable.noteTerminal
  split
  · exact ⟨by simp; omega, hhead, fun _ => hfilling (by omega)⟩
  · refine ⟨by simpa using hlen, ?_, by simp; omega⟩
    dsimp only
    split
    · exact terminalRingCap_pos
    · omega

/-! ## §3 The queue holds the terminal ids -/

/-- The queue holds the ids whose entry is terminal, each of them once. -/
structure RingInv (t : ChannelTable) : Prop where
  shape : RingShape t
  nodup : t.queue.Nodup
  mem_queue : ∀ id, id ∈ t.queue ↔ t.isTerminal id = true

theorem ringInv_new : RingInv new where
  shape := ⟨by decide, by decide, fun _ => rfl⟩
  nodup := List.nodup_nil
  mem_queue id := by simp [queue, new, isTerminal, stateOf]

theorem isTerminal_congr (h : t.stateOf id = t'.stateOf id) : t.isTerminal id = t'.isTerminal id := by
  simp only [isTerminal, h]

theorem isTerminal_setState {state : ChannelState}
    (hstate : state = .halfClosed ∨ state = .closed) (id' : UInt32) :
    (t.setState id state).isTerminal id' = true ↔ id' = id ∨ t.isTerminal id' = true := by
  by_cases heq : id' = id
  · rcases hstate with rfl | rfl <;> simp [isTerminal, heq]
  · simp [isTerminal, heq]

section NewTerminal

variable {t : ChannelTable} {id : UInt32} {state : ChannelState}

theorem RingInv.notMem_queue (h : RingInv t) (hid : t.isTerminal id = false) : id ∉ t.queue := by
  intro hmem
  simp [(h.mem_queue id).mp hmem] at hid

theorem RingInv.terminated_of_lt (h : RingInv t) (hid : t.isTerminal id = false)
    (hstate : state = .halfClosed ∨ state = .closed) (hlt : t.queue.length < terminalRingCap) :
    RingInv ((t.setState id state).noteTerminal id) := by
  have hshape : RingShape (t.setState id state) := ⟨h.shape.1, h.shape.2, h.shape.3⟩
  have hnotin := h.notMem_queue hid
  obtain ⟨hqueue, hstates⟩ := noteTerminal_of_lt hshape id hlt
  refine ⟨hshape.noteTerminal id, ?_, ?_⟩
  · rw [hqueue, List.nodup_append]
    refine ⟨h.nodup, by simp, ?_⟩
    intro a ha b hb heq
    rw [List.mem_singleton] at hb
    exact hnotin (by rwa [← hb, ← heq])
  · intro id'
    have hsame : ((t.setState id state).noteTerminal id).isTerminal id' =
        (t.setState id state).isTerminal id' := isTerminal_congr (by simp only [stateOf, hstates])
    rw [hsame, isTerminal_setState hstate, hqueue]
    simp [h.mem_queue, or_comm]

theorem RingInv.terminated_of_full (h : RingInv t) (hid : t.isTerminal id = false)
    (hstate : state = .halfClosed ∨ state = .closed) {oldest : UInt32} {rest : List UInt32}
    (hq : t.queue = oldest :: rest) (hfull : t.queue.length = terminalRingCap) :
    RingInv ((t.setState id state).noteTerminal id) := by
  have hshape : RingShape (t.setState id state) := ⟨h.shape.1, h.shape.2, h.shape.3⟩
  have hnotin := h.notMem_queue hid
  rw [hq, List.mem_cons, not_or] at hnotin
  have hnodup := h.nodup
  rw [hq, List.nodup_cons] at hnodup
  obtain ⟨hqueue, hstates⟩ := noteTerminal_of_full hshape hq hfull (Ne.symm hnotin.1)
  have hlookup : ∀ id', ((t.setState id state).noteTerminal id).stateOf id' =
      if id' = oldest then none else (t.setState id state).stateOf id' := by
    intro id'
    simp only [stateOf, hstates]
    exact HashMap.lookup_erase _ _ _
  refine ⟨hshape.noteTerminal id, ?_, ?_⟩
  · grind
  · intro id'
    rw [hqueue]
    by_cases hold : id' = oldest
    · -- the oldest id has left the queue and lost its entry
      subst hold
      simp [isTerminal, hlookup, hnodup.1, Ne.symm hnotin.1]
    · have hsame : ((t.setState id state).noteTerminal id).isTerminal id' =
          (t.setState id state).isTerminal id' := isTerminal_congr (by rw [hlookup, if_neg hold])
      have hmem := h.mem_queue id'
      rw [hq, List.mem_cons] at hmem
      rw [hsame, isTerminal_setState hstate, ← hmem]
      simp [hold, or_comm]

/-- A new terminal id goes to the back of the queue, and what the queue
forgets loses its entry. -/
theorem RingInv.terminated (h : RingInv t) (hid : t.isTerminal id = false)
    (hstate : state = .halfClosed ∨ state = .closed) : RingInv ((t.setState id state).noteTerminal id) ∧
      ((t.setState id state).noteTerminal id).queue = push terminalRingCap t.queue id := by
  have hshape : RingShape (t.setState id state) := ⟨h.shape.1, h.shape.2, h.shape.3⟩
  have hle : t.queue.length ≤ terminalRingCap := by simpa [queue] using h.shape.length_le
  by_cases hlt : t.queue.length < terminalRingCap
  · refine ⟨h.terminated_of_lt hid hstate hlt, ?_⟩
    rw [(noteTerminal_of_lt hshape id hlt).1, push, if_pos hlt, queue_setState]
  · cases hq : t.queue with
    | nil => simp [hq, terminalRingCap] at hlt
    | cons oldest rest =>
      have hfull : t.queue.length = terminalRingCap := by omega
      have hoff : oldest ≠ id := by
        rintro rfl
        exact h.notMem_queue hid (by simp [hq])
      refine ⟨h.terminated_of_full hid hstate hq hfull, ?_⟩
      rw [(noteTerminal_of_full hshape hq hfull hoff).1, push, ← hq, if_neg hlt, hq, List.tail_cons]

end NewTerminal

/-- `allocate` does not hand out an id that is in the ring. -/
def AllocatesFresh (t : ChannelTable) (op : Op) : Prop :=
  op = .allocate → t.isTerminal t.nextId = false

instance (t : ChannelTable) (op : Op) : Decidable (AllocatesFresh t op) :=
  inferInstanceAs (Decidable (op = .allocate → t.isTerminal t.nextId = false))

/-- An operation that leaves the ring and each id's standing alone. -/
structure SameRing (t t' : ChannelTable) : Prop where
  ring : t'.terminalRing = t.terminalRing
  head : t'.terminalRingHead = t.terminalRingHead
  isTerminal : ∀ id, t'.isTerminal id = t.isTerminal id

theorem SameRing.inv (h : SameRing t t') (hinv : RingInv t) : RingInv t' ∧ t'.queue = t.queue := by
  obtain ⟨hring, hhead, hterminal⟩ := h
  have hqueue : t'.queue = t.queue := by rw [queue, queue, hring, hhead]
  refine ⟨⟨⟨?_, ?_, ?_⟩, ?_, ?_⟩, hqueue⟩
  · rw [hring]; exact hinv.shape.length_le
  · rw [hhead]; exact hinv.shape.head_lt
  · rw [hring, hhead]; exact hinv.shape.filling
  · rw [hqueue]; exact hinv.nodup
  · intro id
    rw [hqueue, hterminal]
    exact hinv.mem_queue id

/-- A step either leaves the ring alone or takes one id, not terminal
before, to a terminal state. -/
theorem step_ring (hfresh : AllocatesFresh t op) :
    SameRing t (t.step op) ∨ ∃ id state, t.isTerminal id = false ∧
      (state = .halfClosed ∨ state = .closed) ∧
      t.step op = (t.setState id state).noteTerminal id := by
  have heffect := effect_step t op
  generalize t.step op = t' at heffect
  have keeps : ∀ id state, t.isTerminal id = (t.setState id state).isTerminal id →
      SameRing t (t.setState id state) := by
    intro id state hsame
    refine ⟨rfl, rfl, fun id' => ?_⟩
    by_cases heq : id' = id
    · rw [heq, hsame]
    · exact isTerminal_congr (by simp [heq])
  cases heffect with
  | unchanged => exact .inl ⟨rfl, rfl, fun _ => rfl⟩
  | allocated hop =>
    obtain ⟨hring, hhead, hterminal⟩ :=
      keeps t.nextId .idle ((hfresh hop).trans (by simp [isTerminal]))
    exact .inl ⟨hring, hhead, hterminal⟩
  | opened id hid _ => exact .inl (keeps id .open (hid.trans (by simp [isTerminal])))
  | terminated id state _ hid hstate => exact .inr ⟨id, state, hid, hstate, rfl⟩
  | finished id hhalf => exact .inl (keeps id .closed (by simp [isTerminal, hhalf]))

theorem ringInv_step (t : ChannelTable) (op : Op) (hfresh : AllocatesFresh t op)
    (h : RingInv t) : RingInv (t.step op) := by
  rcases step_ring hfresh with hsame | ⟨id, state, hid, hstate, heq⟩
  · exact (hsame.inv h).1
  · rw [heq]
    exact (h.terminated hid hstate).1

/-! ## §4 Runs -/

/-- The ids terminal in `t'` that were not in `t`. -/
def newlyTerminal (t t' : ChannelTable) : List UInt32 :=
  t'.states.keys.filter fun id => t'.isTerminal id && !t.isTerminal id

/-- The ids that became terminal over a run, in order. -/
def terminations (t : ChannelTable) : List Op → List UInt32
  | [] => []
  | op :: ops => newlyTerminal t (t.step op) ++ terminations (t.step op) ops

theorem mem_keys_of_isTerminal (h : t.isTerminal id = true) : id ∈ t.states.keys := by
  rw [← AList.mem_keys, ← AList.lookup_isSome]
  revert h
  unfold isTerminal stateOf
  cases AList.lookup id t.states <;> simp

theorem newlyTerminal_same (h : SameRing t t') : newlyTerminal t t' = [] := by
  simp [newlyTerminal, h.isTerminal]

section

variable (h : RingInv t)
include h

theorem newlyTerminal_terminated {state : ChannelState} (hid : t.isTerminal id = false)
    (hstate : state = .halfClosed ∨ state = .closed) :
    newlyTerminal t ((t.setState id state).noteTerminal id) = [id] := by
  obtain ⟨hinv, hqueue⟩ := h.terminated hid hstate
  have hnew : ∀ id', ((t.setState id state).noteTerminal id).isTerminal id' = true ∧
      t.isTerminal id' = false ↔ id' = id := by
    intro id'
    rw [← hinv.mem_queue, hqueue]
    constructor
    · rintro ⟨hmem, hnot⟩
      rcases mem_push hmem with hold | heq
      · exact absurd hold (h.notMem_queue hnot)
      · exact heq
    · grind [push]
  refine List.perm_singleton.mp ((List.perm_ext_iff_of_nodup ?_ (by simp)).mpr ?_)
  · exact (AList.keys_nodup _).filter _
  · intro id'
    simp only [newlyTerminal, List.mem_filter, Bool.and_eq_true, Bool.not_eq_true', hnew,
      List.mem_singleton]
    constructor
    · exact fun h => h.2
    · intro heq
      exact ⟨mem_keys_of_isTerminal ((hnew id').mpr heq).1, heq⟩

theorem queue_step (hfresh : AllocatesFresh t op) :
    (t.step op).queue = pushAll terminalRingCap t.queue (newlyTerminal t (t.step op)) := by
  rcases step_ring hfresh with hsame | ⟨id, state, hid, hstate, heq⟩
  · rw [newlyTerminal_same hsame, (hsame.inv h).2]
    rfl
  · rw [heq, newlyTerminal_terminated h hid hstate, (h.terminated hid hstate).2]
    rfl

theorem queue_run {history : List UInt32} (hqueue : t.queue = latest terminalRingCap history) {ops : List Op}
    (hops : Meets step AllocatesFresh t ops) :
    (run step t ops).queue = latest terminalRingCap (history ++ terminations t ops) := by
  induction ops generalizing t history with
  | nil => simpa [terminations] using hqueue
  | cons op ops ih =>
    have hstep : (t.step op).queue =
        latest terminalRingCap (history ++ newlyTerminal t (t.step op)) := by
      rw [queue_step h hops.1, hqueue, pushAll_latest terminalRingCap_pos]
    rw [run_cons, ih (ringInv_step t op hops.1 h) hstep hops.2, terminations, List.append_assoc]

/-- A newly terminal id stays terminal while fewer than
`TERMINAL_RING_CAP` different ids become terminal after it. -/
theorem isTerminal_run {after : List Op}
    (hops : Meets step AllocatesFresh t (op :: after)) (hbefore : t.isTerminal id = false)
    (hclosed : (t.step op).isTerminal id = true)
    (hfew : (terminations (t.step op) after).dedup.length < terminalRingCap) :
    (run step (t.step op) after).isTerminal id = true := by
  have hnext := ringInv_step t op hops.1 h
  have hlast := Meets.invariant RingInv ringInv_step hops.2 hnext
  have hqueue : ∃ history, (t.step op).queue = latest terminalRingCap (history ++ [id]) := by
    rcases step_ring hops.1 with hsame | ⟨id', state, hid, hstate, heq⟩
    · simp [hsame.isTerminal, hbefore] at hclosed
    · obtain ⟨hinv, hpush⟩ := h.terminated hid hstate
      have hmem : id ∈ push terminalRingCap t.queue id' := by
        rw [← hpush, hinv.mem_queue, ← heq]
        exact hclosed
      obtain rfl : id = id' := by
        rcases mem_push hmem with hold | hnew
        · exact absurd hold (h.notMem_queue hbefore)
        · exact hnew
      refine ⟨t.queue, ?_⟩
      rw [heq, hpush, ← push_latest terminalRingCap_pos, latest_of_length_le]
      simpa [queue] using h.shape.length_le
  obtain ⟨history, hqueue⟩ := hqueue
  have hrun := queue_run hnext hqueue hops.2
  have hnodup := hlast.nodup
  rw [hrun] at hnodup
  rw [← hlast.mem_queue, hrun, List.append_assoc, List.singleton_append]
  refine mem_latest_append ?_
  -- a queue of later ids only would repeat none of them
  by_contra hmany
  refine absurd hfew (Nat.not_lt.mpr (le_length_dedup ?_ (Nat.le_of_not_lt hmany)))
  exact (latest_append_sublist _ (history ++ [id]) _).nodup hnodup

theorem length_terminal_keys :
    (t.states.keys.filter t.isTerminal).length ≤ terminalRingCap := by
  have hsub : t.states.keys.filter t.isTerminal ⊆ t.queue := by
    intro id hid
    exact (h.mem_queue id).mpr (List.mem_filter.mp hid).2
  calc (t.states.keys.filter t.isTerminal).length
    _ ≤ t.queue.length :=
      (List.Nodup.subperm ((AList.keys_nodup t.states).filter _) hsub).length_le
    _ ≤ terminalRingCap := by simpa [queue] using h.shape.length_le

theorem count_terminalRing (id : UInt32) :
    t.terminalRing.count id = if t.isTerminal id then 1 else 0 := by
  rw [← (inOrder_perm t.terminalRing t.terminalRingHead).count_eq]
  split
  · rename_i hid
    exact List.count_eq_one_of_mem h.nodup ((h.mem_queue id).mpr hid)
  · rename_i hid
    exact List.count_eq_zero.mpr fun hmem => hid ((h.mem_queue id).mp hmem)

end

theorem refused_of_isTerminal (h : t.isTerminal id = true) (accepted : Bool) :
    t.isOpen id = false ∧ (t.route .channelData id accepted).1 = .drop id .nonOpenChannel := by
  have hstate : t.stateOf id = some .halfClosed ∨ t.stateOf id = some .closed := by
    revert h
    unfold isTerminal
    split <;> simp_all
  rcases hstate with hstate | hstate <;> simp [route, isOpen, hstate]

/-- Memory and lifecycle of the table, for every run whose allocations
are fresh. -/
theorem channelTable_ring_exact {ops : List Op} (hops : Meets step AllocatesFresh new ops) :
    (∀ id, (run step new ops).terminalRing.count id =
      if (run step new ops).isTerminal id then 1 else 0) ∧
    ((run step new ops).states.keys.filter (run step new ops).isTerminal).length ≤
      terminalRingCap ∧
    (∀ op id, (run step new ops).stateOf id = none →
      ((run step new ops).step op).stateOf id ≠ none → (run step new ops).Registers id op) ∧
    (∀ before op after id accepted, ops = before ++ op :: after →
      (run step new before).isTerminal id = false →
      ((run step new before).step op).isTerminal id = true →
      (terminations ((run step new before).step op) after).dedup.length < terminalRingCap →
      (run step new ops).isOpen id = false ∧
        ((run step new ops).route .channelData id accepted).1 = .drop id .nonOpenChannel) := by
  have hinv : RingInv (run step new ops) := Meets.invariant RingInv ringInv_step hops ringInv_new
  refine ⟨count_terminalRing hinv, length_terminal_keys hinv, ?_, ?_⟩
  · intro op id hnone hsome
    exact registers_of_stateOf_step hnone hsome
  · rintro before op after id accepted rfl hbefore hclosed hfew
    obtain ⟨hmeets, hrest⟩ := meets_append.mp hops
    have hstart := Meets.invariant RingInv ringInv_step hmeets ringInv_new
    have hlast := isTerminal_run hstart hrest hbefore hclosed hfew
    rw [run_append, run_cons]
    exact refused_of_isTerminal hlast accepted

/-- The table after one channel was opened and closed by the peer. -/
theorem channelTable_ring_exact_one :
    (run step new [.open 1, .remoteClose 1]).terminalRing.count 1 = 1 := by
  have hops : Meets step AllocatesFresh new [.open 1, .remoteClose 1] := by decide
  exact (channelTable_ring_exact hops).1 1

/-- The peer opens and closes id 1 before this side allocates: `allocate`
hands it out, and it is idle while in the ring. -/
theorem allocate_reuses_terminal :
    ¬ ∀ (ops : List Op) (id : UInt32), (run step new ops).terminalRing.count id =
      if (run step new ops).isTerminal id then 1 else 0 := by
  intro h
  exact absurd (h [.open 1, .remoteClose 1, .allocate] 1) (by decide +kernel)

end SlopDesk.Mux.ChannelTable
