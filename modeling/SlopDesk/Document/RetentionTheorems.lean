/-
SlopDesk.Document.RetentionTheorems — a diff is only ever computed against
a state the client holds.

§1 runs a retention beside what was committed, acked, declared, minted and
released, §2 has the invariant kept by each call, and §3 runs them.
-/
import SlopDesk.Base.Runs
import SlopDesk.Document.SyncLadder

namespace SlopDesk.Document

open SlopDesk.Base
open SlopDesk.Wire (RawUuid)

/-! ## §1 A retention and its history -/

/-- One call on a `Retention`. -/
inductive LadderOp (τ : Type) where
  | noteAck (stateNum : Int)
  | applyPendingAck
  | resubscribe (knownEpoch : RawUuid) (knownStateNum : Int) (contributesSize followsFocus : Bool)
  | plan (epoch : RawUuid)
  | commit (stateNum : Int) (payload : τ)

def LadderOp.commits {τ : Type} : LadderOp τ → Bool
  | .commit .. => true
  | _ => false

/-- A retention with what was committed since its base was last reset, the
commits its base was taken from, the numbers acked, the claims declared,
and the slots minted and released over its whole life. -/
structure Traced (τ : Type) where
  retention : Retention τ
  committed : List (Int × τ)
  basedOn : List (Int × τ)
  acked : List Int
  declared : List (RawUuid × Int)
  minted : List UInt32
  released : List UInt32

namespace Traced

variable {τ : Type}
variable {s : Traced τ}

/-- A subscriber that holds nothing. -/
def start (contributesSize followsFocus : Bool) : Traced τ where
  retention := .new contributesSize followsFocus
  committed := []
  basedOn := []
  acked := []
  declared := []
  minted := []
  released := []

/-- The history after a call that commits nothing: a reset forgets the
commits, and a base that moved was taken from all of them. -/
def follow (s : Traced τ) (retention : Retention τ) (released : List UInt32) (reset : Bool) :
    Traced τ :=
  { s with
    retention
    released := s.released ++ released
    committed := if reset then [] else s.committed
    basedOn :=
      if reset then []
      else if retention.ladder.baseSlot = s.retention.ladder.baseSlot then s.basedOn
      else s.committed }

def step (s : Traced τ) : LadderOp τ → Traced τ
  | .noteAck stateNum =>
    { s with retention := s.retention.noteAck stateNum, acked := s.acked ++ [stateNum] }
  | .applyPendingAck =>
    s.follow s.retention.applyPendingAck s.retention.ladder.applyPendingAck.2.slots false
  | .resubscribe knownEpoch knownStateNum contributesSize followsFocus =>
    { s with declared := s.declared ++ [(knownEpoch, knownStateNum)] }.follow
      (s.retention.resubscribe knownEpoch knownStateNum contributesSize followsFocus)
      (s.retention.ladder.resubscribe knownEpoch knownStateNum contributesSize followsFocus).2.slots
      (s.retention.ladder.claimed knownEpoch knownStateNum).isNone
  | .plan epoch =>
    s.follow (s.retention.plan epoch).2 (s.retention.ladder.plan epoch).1.releasedSlots
      (s.retention.plan epoch).1.resets
  | .commit stateNum payload =>
    let commit := (s.retention.ladder.commit stateNum).1
    { s with
      retention := s.retention.commit stateNum payload
      committed := s.committed ++ [(stateNum, payload)]
      minted := s.minted ++ [commit.slot]
      released := s.released ++ commit.released.slots }

/-- What every reachable history keeps. -/
structure Inv (s : Traced τ) : Prop where
  bound : s.minted.length < 4294967295
  minted : s.minted = (List.range s.minted.length).map UInt32.ofNat
  nextSlot : s.retention.ladder.nextSlot = UInt32.ofNat s.minted.length
  split : (s.released ++ s.retention.ladder.reachable).Perm s.minted
  nums : (s.retention.ladder.window.entries.map Retained.stateNum).Nodup
  held : ∀ slot : UInt32, (∃ p, s.retention.held[slot]? = some p) ↔
    slot ∈ s.retention.ladder.reachable
  window : ∀ e ∈ s.retention.ladder.window.entries, ∀ p, s.retention.held[e.slot]? = some p →
    BTreeMap.assigned s.committed e.stateNum = some p
  base : ∀ slot p, s.retention.ladder.baseSlot = some slot → s.retention.held[slot]? = some p →
    BTreeMap.assigned s.basedOn s.retention.ladder.ackedStateNum = some p
  since : s.basedOn <+: s.committed
  pending : ∀ n, s.retention.ladder.pendingAck = some n → n ∈ s.acked
  known : s.retention.ladder.baseSlot ≠ none → s.retention.ladder.ackedStateNum ∈ s.acked ∨
    ∃ epoch, s.retention.ladder.sentEpoch = some epoch ∧
      (epoch, s.retention.ladder.ackedStateNum) ∈ s.declared

namespace Inv

variable {s : Traced τ}

theorem mem_minted (h : s.Inv) {slot : UInt32} (hslot : slot ∈ s.minted) :
    slot.toNat < s.minted.length := by
  have hbound := h.bound
  rw [h.minted] at hslot
  obtain ⟨i, hi, rfl⟩ := List.mem_map.mp hslot
  have hlt := List.mem_range.mp hi
  rw [UInt32.toNat_ofNat', Nat.mod_eq_of_lt (by omega)]
  exact hlt

theorem nodup_minted (h : s.Inv) : s.minted.Nodup := by
  have hbound := h.bound
  rw [h.minted]
  refine List.Nodup.map_on ?_ List.nodup_range
  intro i hi j hj heq
  have hilt := List.mem_range.mp hi
  have hjlt := List.mem_range.mp hj
  have hnat := congrArg UInt32.toNat heq
  rwa [UInt32.toNat_ofNat', UInt32.toNat_ofNat', Nat.mod_eq_of_lt (by omega),
    Nat.mod_eq_of_lt (by omega)] at hnat

theorem distinct (h : s.Inv) : s.retention.ladder.Distinct where
  slots := (List.nodup_append.mp (h.split.nodup_iff.mpr h.nodup_minted)).2.1
  real hmem := by
    have hlt := h.mem_minted (h.split.mem_iff.mp (List.mem_append_right _ hmem))
    have hbound := h.bound
    have hnat : noSlot.toNat = 4294967295 := rfl
    omega
  nums := h.nums

theorem lookup_dropReleased (held : BTreeMap UInt32 τ) (released : Released) (slot : UInt32) :
    (Retention.dropReleased held released)[slot]? = if slot ∈ released.slots then none
      else held[slot]? :=
  BTreeMap.lookup_foldl_erase held released.slots slot

section

variable (h : s.Inv)
include h

theorem follow {l : SyncLadder} {released : Released}
    (hdrops : s.retention.ladder.Drops l released) (reset : Bool)
    (hreset : reset = true → l.window.entries = [] ∧ l.baseSlot = none)
    (hpending : ∀ n, l.pendingAck = some n → n ∈ s.acked)
    (hknown : l.baseSlot ≠ none → l.ackedStateNum ∈ s.acked ∨
      ∃ epoch, l.sentEpoch = some epoch ∧ (epoch, l.ackedStateNum) ∈ s.declared) :
    (s.follow ⟨l, Retention.dropReleased s.retention.held released⟩ released.slots reset).Inv := by
  have hnodup := hdrops.split.nodup_iff.mpr h.distinct.slots
  have hkeep : ∀ slot ∈ l.reachable,
      (Retention.dropReleased s.retention.held released)[slot]? = s.retention.held[slot]? := by
    intro slot hslot
    rw [lookup_dropReleased, if_neg]
    exact fun hgone => (List.nodup_append.mp hnodup).2.2 slot hgone slot hslot rfl
  have hbase : ∀ slot, l.baseSlot = some slot → slot ∈ l.reachable := fun slot hslot =>
    List.mem_append_right _ (by simp [hslot])
  refine {
    bound := h.bound
    minted := h.minted
    nextSlot := hdrops.nextSlot.trans h.nextSlot
    split := ?_
    nums := (hdrops.distinct h.distinct).nums
    held := ?_
    window := ?_
    base := ?_
    since := ?_
    pending := hpending
    known := hknown }
  · show ((s.released ++ released.slots) ++ l.reachable).Perm s.minted
    rw [List.append_assoc]
    exact (hdrops.split.append_left _).trans h.split
  · intro slot
    constructor
    · rintro ⟨p, hp⟩
      dsimp only [Traced.follow] at hp
      rw [lookup_dropReleased] at hp
      split at hp
      case isTrue => contradiction
      case isFalse hkept =>
        have hold := (h.held slot).mp ⟨p, hp⟩
        exact (List.mem_append.mp (hdrops.split.mem_iff.mpr hold)).resolve_left hkept
    · intro hslot
      obtain ⟨p, hp⟩ := (h.held slot).mpr
        (hdrops.split.mem_iff.mp (List.mem_append_right _ hslot))
      exact ⟨p, (hkeep slot hslot).trans hp⟩
  · intro e he p hp
    dsimp only [Traced.follow] at he hp ⊢
    have hslot : e.slot ∈ l.reachable := List.mem_append_left _ (List.mem_map_of_mem he)
    cases reset with
    | true =>
      rw [(hreset rfl).1] at he
      contradiction
    | false => exact h.window e (hdrops.window.subset he) p ((hkeep _ hslot).symm.trans hp)
  · intro slot p hslot hp
    dsimp only [Traced.follow] at hslot hp ⊢
    rw [hkeep slot (hbase slot hslot)] at hp
    cases reset with
    | true =>
      rw [(hreset rfl).2] at hslot
      contradiction
    | false =>
      by_cases hstays : l.baseSlot = s.retention.ladder.baseSlot
      case pos =>
        rw [if_pos hstays]
        rcases hdrops.base with ⟨_, hacked⟩ | hnone | ⟨e, he, htaken, _⟩
        · rw [hacked]
          exact h.base slot p (hstays ▸ hslot) hp
        · rw [hnone] at hslot
          contradiction
        · exact absurd (List.mem_map_of_mem he) (h.distinct.base_notin (hstays ▸ htaken))
      case neg =>
        rw [if_neg hstays]
        rcases hdrops.base with ⟨hsame, _⟩ | hnone | ⟨e, he, htaken, hacked⟩
        · exact absurd hsame hstays
        · rw [hnone] at hslot
          contradiction
        · rw [htaken] at hslot
          obtain rfl := Option.some.inj hslot
          rw [hacked]
          exact h.window e he p hp
  · dsimp only [Traced.follow]
    cases reset with
    | true => exact List.prefix_refl _
    | false =>
      simp only [Bool.false_eq_true, if_false]
      split
      case isTrue => exact h.since
      case isFalse => exact List.prefix_refl _

theorem noteAck (n : Int) : (s.step (.noteAck n)).Inv := by
  have hpending : ∀ m, (s.retention.ladder.noteAck n).pendingAck = some m → m ∈ s.acked ++ [n] := by
    intro m hm
    simp only [SyncLadder.noteAck, Option.some.injEq] at hm
    cases hheld : s.retention.ladder.pendingAck with
    | none => simp [← hm, hheld]
    | some held =>
      rw [hheld] at hm
      dsimp only at hm
      split at hm
      case isTrue => exact List.mem_append_left _ (h.pending m (hm ▸ hheld))
      case isFalse => simp [hm]
  exact { h with
    pending := hpending
    known := fun hne => (h.known hne).imp_left (List.mem_append_left _) }

theorem applyPendingAck : (s.step .applyPendingAck).Inv := by
  obtain ⟨hpending, hepoch, hbase⟩ := s.retention.ladder.applyPendingAck_cases
  refine h.follow h.distinct.applyPendingAck false (by simp) (by simp [hpending]) fun hne => ?_
  rcases hbase with ⟨hslot, hacked⟩ | hacked
  · rw [hepoch, hacked]
    exact h.known (hslot ▸ hne)
  · exact .inl (h.pending _ hacked)

theorem resubscribe (knownEpoch : RawUuid) (knownStateNum : Int) (contributesSize followsFocus : Bool) :
    (s.step (.resubscribe knownEpoch knownStateNum contributesSize followsFocus)).Inv := by
  obtain ⟨hpending, hepoch, hbase⟩ :=
    s.retention.ladder.resubscribe_cases knownEpoch knownStateNum contributesSize followsFocus
  have hdeclared : Inv { s with declared := s.declared ++ [(knownEpoch, knownStateNum)] } :=
    { h with
      known := fun hne => (h.known hne).imp_right fun ⟨epoch, hsent, hmem⟩ =>
        ⟨epoch, hsent, List.mem_append_left _ hmem⟩ }
  refine hdeclared.follow (h.distinct.resubscribe ..) _ ?_ ?_ fun hne => ?_
  · intro hnone
    rcases hbase with ⟨_, hempty⟩ | ⟨hsome, _⟩
    · exact hempty
    · exact absurd (Option.isNone_iff_eq_none.mp hnone) hsome
  · rw [hpending]
    exact h.pending
  · grind

theorem plan (epoch : RawUuid) : (s.step (.plan epoch)).Inv := by
  by_cases hfree : s.retention.ladder.outstanding.isSome
  case pos =>
    obtain ⟨hplan, hladder⟩ := Retention.plan_hold hfree epoch
    have hfollow := h.follow (.same rfl rfl rfl rfl) false (by simp) h.pending h.known
    have hstep : s.step (.plan epoch) = s.follow s.retention [] false := by
      simp only [Traced.step, hplan, hladder, Plan.releasedSlots, Planned.resets]
    rw [hstep]
    exact hfollow
  case neg =>
    obtain ⟨hretention, frame, hladder, hreleased, _⟩ := Retention.plan_send hfree epoch
    obtain ⟨hpending, hepoch, hcases⟩ := s.retention.ladder.enterEpoch_cases epoch
    have hstep : s.step (.plan epoch) = s.follow
        ⟨(s.retention.ladder.enterEpoch epoch).1,
          Retention.dropReleased s.retention.held (s.retention.ladder.enterEpoch epoch).2⟩
        (s.retention.ladder.enterEpoch epoch).2.slots (s.retention.ladder.resetFirst epoch) := by
      simp only [Traced.step, hretention, hladder, Plan.releasedSlots, hreleased,
        Retention.resets_plan hfree]
    rw [hstep]
    refine h.follow (h.distinct.enterEpoch epoch) _ ?_ (hpending ▸ h.pending) fun hne => ?_
    · grind
    · rcases hcases with ⟨_, _, hbase, _⟩ | ⟨hsame, heq⟩
      · exact absurd hbase hne
      · rw [heq] at hne ⊢
        refine (h.known hne).imp_right fun hdeclared => ⟨epoch, rfl, ?_⟩
        obtain ⟨sent, hsent, hmem⟩ := hdeclared
        rwa [SyncLadder.sentEpoch_of_not_reset hsame hsent] at hmem

theorem nextSlot_fresh : s.retention.ladder.nextSlot ∉ s.minted ∧
    s.retention.ladder.nextSlot ≠ noSlot ∧
    s.retention.ladder.nextSlot.toNat = s.minted.length := by
  have hbound := h.bound
  have hslot : s.retention.ladder.nextSlot.toNat = s.minted.length := by
    grind [h.nextSlot, UInt32.toNat_ofNat']
  refine ⟨fun hmem => ?_, fun heq => ?_, hslot⟩
  · have hlt := h.mem_minted hmem
    omega
  · have hno : noSlot.toNat = 4294967295 := rfl
    rw [heq] at hslot
    omega

theorem nextSlot_commit (hroom : s.minted.length + 1 < 4294967295) (n : Int) :
    (s.retention.ladder.commit n).2.nextSlot = UInt32.ofNat (s.minted.length + 1) := by
  have hnext : s.retention.ladder.nextSlot + 1 = UInt32.ofNat (s.minted.length + 1) := by
    rw [h.nextSlot]
    exact (UInt32.ofNat_add ..).symm
  show (if s.retention.ladder.nextSlot + 1 = noSlot then 0 else s.retention.ladder.nextSlot + 1) = _
  rw [hnext, if_neg]
  intro heq
  have hnat := congrArg UInt32.toNat heq
  have hno : noSlot.toNat = 4294967295 := rfl
  rw [UInt32.toNat_ofNat', Nat.mod_eq_of_lt (by omega), hno] at hnat
  omega

theorem commit (hroom : s.minted.length + 1 < 4294967295) (n : Int) (payload : τ) :
    (s.step (.commit n payload)).Inv := by
  obtain ⟨hnew, hreal, hslot⟩ := h.nextSlot_fresh
  have htakes := SyncLadder.takes_commit s.retention.ladder n
  have hfresh : s.retention.ladder.nextSlot ∉ s.retention.ladder.reachable := fun hmem =>
    hnew (h.split.mem_iff.mp (List.mem_append_right _ hmem))
  have hdistinct := htakes.distinct h.distinct hfresh hreal
  obtain ⟨kept, hentries, hkept⟩ := htakes.window
  have hretention := Retention.commit_eq hreal n payload
  -- what is still reachable was not released
  have hnodup : ((s.retention.ladder.commit n).1.released.slots
      ++ (s.retention.ladder.commit n).2.reachable).Nodup := by
    refine htakes.split.nodup_iff.mpr (List.nodup_append.mpr ⟨h.distinct.slots, by simp, ?_⟩)
    intro a ha b hb heq
    rw [List.mem_singleton.mp hb] at heq
    exact hfresh (heq ▸ ha)
  have hlookup : ∀ slot ∈ (s.retention.ladder.commit n).2.reachable,
      (s.retention.commit n payload).held[slot]?
        = if slot = s.retention.ladder.nextSlot then some payload
          else s.retention.held[slot]? := by
    intro slot hmem
    rw [hretention]
    rw [BTreeMap.lookup_insert, lookup_dropReleased, if_neg (fun hgone =>
      (List.nodup_append.mp hnodup).2.2 slot hgone slot hmem rfl)]
  have hold : ∀ slot ∈ s.retention.ladder.reachable, slot ≠ s.retention.ladder.nextSlot :=
    fun slot hmem heq => hfresh (heq ▸ hmem)
  have hnewmem : s.retention.ladder.nextSlot ∈ (s.retention.ladder.commit n).2.reachable :=
    List.mem_append_left _ (by rw [hentries]; simp)
  refine {
    bound := ?_
    minted := ?_
    nextSlot := ?_
    split := ?_
    nums := ?_
    held := ?_
    window := ?_
    base := ?_
    since := h.since.trans (List.prefix_append ..)
    pending := h.pending
    known := h.known }
  · simpa [Traced.step] using hroom
  · show s.minted ++ [s.retention.ladder.nextSlot]
      = (List.range (s.minted ++ [_]).length).map UInt32.ofNat
    rw [List.length_append, List.length_singleton, List.range_succ, List.map_append, ← h.minted,
      h.nextSlot]
    rfl
  · show (s.retention.ladder.commit n).2.nextSlot = UInt32.ofNat (s.minted ++ [_]).length
    rw [List.length_append]
    exact h.nextSlot_commit hroom n
  · show ((s.released ++ (s.retention.ladder.commit n).1.released.slots)
      ++ (s.retention.ladder.commit n).2.reachable).Perm (s.minted ++ [s.retention.ladder.nextSlot])
    rw [List.append_assoc]
    refine (htakes.split.append_left _).trans ?_
    rw [← List.append_assoc]
    exact h.split.append_right _
  · exact hdistinct.nums
  · intro slot
    constructor
    · rintro ⟨p, hp⟩
      dsimp only [Traced.step] at hp
      rw [hretention] at hp
      rw [BTreeMap.lookup_insert] at hp
      by_cases hminted : slot = s.retention.ladder.nextSlot
      case pos => exact hminted ▸ hnewmem
      case neg =>
        rw [if_neg hminted, lookup_dropReleased] at hp
        split at hp
        case isTrue => contradiction
        case isFalse hkept =>
          have hreached := (h.held slot).mp ⟨p, hp⟩
          have hmem := htakes.split.mem_iff.mpr (List.mem_append_left _ hreached)
          exact (List.mem_append.mp hmem).resolve_left hkept
    · intro hmem
      dsimp only [Traced.step] at hmem ⊢
      by_cases hminted : slot = s.retention.ladder.nextSlot
      case pos => exact ⟨payload, by rw [hlookup slot hmem, if_pos hminted]⟩
      case neg =>
        have hboth := htakes.split.mem_iff.mp (List.mem_append_right _ hmem)
        have hreached := (List.mem_append.mp hboth).resolve_right (by simpa using hminted)
        obtain ⟨p, hp⟩ := (h.held slot).mpr hreached
        exact ⟨p, by rw [hlookup slot hmem, if_neg hminted, hp]⟩
  · intro e he p hp
    change e ∈ (s.retention.ladder.commit n).2.window.entries at he
    dsimp only [Traced.step] at hp ⊢
    have hreached : e.slot ∈ (s.retention.ladder.commit n).2.reachable :=
      List.mem_append_left _ (List.mem_map_of_mem he)
    rw [hlookup e.slot hreached] at hp
    rw [BTreeMap.assigned_append]
    rw [hentries] at he
    rcases List.mem_append.mp he with hold' | hnew'
    · have hin := List.mem_filter.mp (hkept.subset hold')
      have hne := hold e.slot (List.mem_append_left _ (List.mem_map_of_mem hin.1))
      rw [if_neg hne] at hp
      have hnum : e.stateNum ≠ n := by simpa using hin.2
      rw [if_neg hnum]
      exact h.window e hin.1 p hp
    · grind
  · intro slot p hslot hp
    change s.retention.ladder.baseSlot = some slot at hslot
    dsimp only [Traced.step] at hp ⊢
    have hreached : slot ∈ s.retention.ladder.reachable :=
      List.mem_append_right _ (by simp [hslot])
    have hreached' : slot ∈ (s.retention.ladder.commit n).2.reachable :=
      List.mem_append_right _ (by simp [htakes.baseSlot, hslot])
    rw [hlookup slot hreached', if_neg (hold slot hreached)] at hp
    exact h.base slot p hslot hp

end

theorem start (contributesSize followsFocus : Bool) :
    (Traced.start (τ := τ) contributesSize followsFocus).Inv where
  bound := by simp [Traced.start]
  minted := rfl
  nextSlot := rfl
  split := .nil
  nums := .nil
  held slot := by
    have hempty : (∅ : BTreeMap UInt32 τ)[slot]? = none := Std.ExtTreeMap.getElem?_empty
    constructor
    · rintro ⟨p, hp⟩
      exact absurd (hempty.symm.trans hp) (by simp)
    · intro hmem
      exact absurd hmem (List.not_mem_nil)
  window e he := absurd he (List.not_mem_nil)
  base slot p hslot := by contradiction
  since := List.prefix_refl _
  pending n hn := by contradiction
  known hne := absurd rfl hne

end Inv

/-! ## §3 Over a run -/

theorem Inv.step (h : s.Inv) (op : LadderOp τ)
    (hroom : s.minted.length + [op].countP LadderOp.commits < 4294967295) : (s.step op).Inv ∧
    (s.step op).minted.length = s.minted.length + [op].countP LadderOp.commits := by
  cases op with
  | noteAck n => exact ⟨h.noteAck n, rfl⟩
  | applyPendingAck => exact ⟨h.applyPendingAck, rfl⟩
  | resubscribe epoch n cs ff => exact ⟨h.resubscribe epoch n cs ff, rfl⟩
  | plan epoch => exact ⟨h.plan epoch, rfl⟩
  | commit n p => exact ⟨h.commit hroom n p, by simp [Traced.step, LadderOp.commits]⟩

theorem Inv.run (h : s.Inv) (ops : List (LadderOp τ))
    (hroom : s.minted.length + ops.countP LadderOp.commits < 4294967295) :
    (Base.run Traced.step s ops).Inv := by
  induction ops generalizing s with
  | nil => exact h
  | cons op ops ih =>
    have hcount : (op :: ops).countP LadderOp.commits
        = [op].countP LadderOp.commits + ops.countP LadderOp.commits := by
      rw [← List.countP_append]
      rfl
    obtain ⟨hnext, hlength⟩ := h.step op (by omega)
    exact ih hnext (by omega)

/-- What a history says of a retention. -/
structure Sound (s : Traced τ) : Prop where
  /-- A diff's base is what was committed under its number last when the base
  moved, hence what was committed last where a number names one payload. -/
  base : ∀ epoch n base r, s.retention.plan epoch = (.diff n base, r) →
    BTreeMap.assigned s.basedOn n = some base ∧ s.basedOn <+: s.committed ∧
    ((∀ p q, (n, p) ∈ s.committed → (n, q) ∈ s.committed → p = q) →
      BTreeMap.assigned s.committed n = some base)
  /-- Its number was acked, or declared under the epoch planned for. -/
  known : ∀ epoch n base r, s.retention.plan epoch = (.diff n base, r) →
    n ∈ s.acked ∨ (epoch, n) ∈ s.declared
  hold : ∀ epoch r, s.retention.plan epoch = (.hold, r) → r = s.retention
  held : ∀ slot, slot ∈ s.retention.held ↔ slot ∈ s.retention.ladder.reachable
  base_notin : ∀ slot, s.retention.ladder.baseSlot = some slot →
    slot ∉ s.retention.ladder.window.entries.map Retained.slot
  size : s.retention.held.size ≤ maxReleased
  minted : s.minted.Nodup
  released : (s.released ++ s.retention.ladder.reachable).Perm s.minted

theorem Inv.sound (h : s.Inv) : s.Sound where
  base epoch n base r hplan := by
    obtain ⟨slot, hslot, rfl, hheld, _⟩ := Retention.plan_diff hplan
    have hassigned := h.base slot base hslot hheld
    refine ⟨hassigned, h.since, fun hone => ?_⟩
    have hmem := h.since.subset (BTreeMap.mem_of_assigned hassigned)
    exact BTreeMap.assigned_eq_some hmem fun p hp => hone p base hp hmem
  known epoch n base r hplan := by
    obtain ⟨slot, hslot, rfl, _, hsame⟩ := Retention.plan_diff hplan
    refine (h.known (by simp [hslot])).imp_right fun ⟨sent, hsent, hmem⟩ => ?_
    exact SyncLadder.sentEpoch_of_not_reset hsame hsent ▸ hmem
  hold epoch r hplan := by
    by_cases hfree : s.retention.ladder.outstanding.isSome
    case pos =>
      rw [(Retention.plan_hold hfree epoch).1] at hplan
      exact (Prod.mk.inj hplan).2.symm
    case neg => exact absurd (congrArg Prod.fst hplan) (Retention.plan_ne_hold hfree epoch)
  held slot := by
    rw [← h.held slot, ← Std.ExtTreeMap.isSome_getElem?_iff_mem, Option.isSome_iff_exists]
  base_notin slot hslot := h.distinct.base_notin hslot
  size := by
    have hkeys : s.retention.held.keys.Subperm s.retention.ladder.reachable := by
      refine List.subperm_of_subset ?_ fun slot hslot => ?_
      · exact Std.ExtTreeMap.nodup_keys
      · rw [Std.ExtTreeMap.mem_keys, ← Std.ExtTreeMap.isSome_getElem?_iff_mem,
          Option.isSome_iff_exists] at hslot
        exact (h.held slot).mp hslot
    have hlength := hkeys.length_le
    have hfits := s.retention.ladder.window.fits
    have hbase := SyncLadder.Distinct.length_base s.retention.ladder
    rw [Std.ExtTreeMap.length_keys, SyncLadder.reachable, List.length_append, List.length_map]
      at hlength
    simp only [maxReleased]
    omega
  minted := h.nodup_minted
  released := h.split

/-- Over every run of fewer than 2^32 - 1 commits, whatever is acked,
claimed, planned and committed. -/
theorem base_is_held (contributesSize followsFocus : Bool) (ops : List (LadderOp τ))
    (hcommits : ops.countP LadderOp.commits < 4294967295) :
    (Base.run Traced.step (Traced.start contributesSize followsFocus) ops).Sound :=
  ((Inv.start contributesSize followsFocus).run ops (by simpa [Traced.start] using hcommits)).sound

/-- An epoch. -/
def someEpoch : RawUuid := ⟨List.replicate 16 7, rfl⟩

/-- A subscriber that acks what it was sent, planned for again. -/
theorem base_is_held_acked :
    (Base.run Traced.step (Traced.start true false)
      [.plan someEpoch, .commit 1 'a', .noteAck 1, .applyPendingAck, .plan someEpoch]).Sound :=
  base_is_held true false _ (by decide)

/-- A number committed twice: the second payload is evicted before its ack
arrives, by states an unknown ack made room to send. -/
def evictedTwin : List (LadderOp Char) :=
  [.plan someEpoch, .commit 1 'a', .noteAck 1, .applyPendingAck, .plan someEpoch, .commit 1 'b']
    ++ [2, 3, 4, 5].flatMap
      (fun n => [.noteAck 99, .applyPendingAck, .plan someEpoch, .commit n 'c'])
    ++ [.noteAck 1, .applyPendingAck]

/-- The base under a number is then not what was committed under it last. -/
theorem base_not_latest : ¬ ∀ ops : List (LadderOp Char), ops.countP LadderOp.commits < 4294967295 →
    ∀ epoch n base r,
      (Base.run Traced.step (Traced.start true false) ops).retention.plan epoch = (.diff n base, r) →
      BTreeMap.assigned (Base.run Traced.step (Traced.start true false) ops).committed n
        = some base := by
  intro hlatest
  have hplan : ((Base.run Traced.step (Traced.start true false) evictedTwin).retention.plan
      someEpoch).1 = .diff 1 'a' := by decide +kernel
  have hlast : BTreeMap.assigned
      (Base.run Traced.step (Traced.start true false) evictedTwin).committed 1 = some 'b' := by
    decide +kernel
  have hbase := hlatest evictedTwin (by decide) someEpoch 1 'a' _ (Prod.ext hplan rfl)
  exact absurd (hlast.symm.trans hbase) (by decide)

end Traced

end SlopDesk.Document
