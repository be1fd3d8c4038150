/-
SlopDesk.HostPane.EndTheorems — when a stream is told of its end.

Two threads can declare it: the reader, after the last chunk of a backlog
or on the pane's `exited` notice, and the thread in `start`, when the
offset it finds has passed the head it was answered with. One latch makes
it once. The chunk before it is another matter: `bytes` moves the offset
under the lock and hands the chunk on after, so the thread in `start` can
declare the end of bytes the reader still has in hand. §2 is one stream's
invariant and §3 that of a run in which this does not happen.
-/
import SlopDesk.HostPane.SubscriptionTheorems

namespace SlopDesk.HostPane

open SlopDesk.Base
open SlopDesk.Superd

variable {σ β : Type}
variable {calls : List (SinkCall σ β)}
variable {g : Guarded σ β} {name : String} {offset : Nat}

/-! ## §1 The calls of a sink -/

/-- Whether a call is the end. -/
def SinkCall.isEnd : SinkCall σ β → Bool
  | .ended => true
  | _ => false

/-- How often the end was told. -/
def ends (calls : List (SinkCall σ β)) : Nat := calls.countP SinkCall.isEnd

/-- Nothing of the stream comes after its end. -/
def EndsLast (calls : List (SinkCall σ β)) : Prop :=
  ∀ before after, calls = before ++ .ended :: after → payloads after = []

/-- The bytes before `head` were handed on: a chunk that ends there or
beyond. -/
def Reaches (calls : List (SinkCall σ β)) (head : Nat) : Prop :=
  ∃ payload endsAt sniffed blocks, .chunk payload endsAt sniffed blocks ∈ calls ∧ head ≤ endsAt

@[simp] theorem ends_ended : ends [(.ended : SinkCall σ β)] = 1 := rfl
@[simp] theorem ends_append (a b : List (SinkCall σ β)) : ends (a ++ b) = ends a + ends b :=
  List.countP_append

theorem ends_pos : 0 < ends calls ↔ .ended ∈ calls := by
  rw [ends, List.countP_pos_iff]
  constructor
  · rintro ⟨call, hmem, hend⟩
    cases call with
    | ended => exact hmem
    | _ => contradiction
  · exact fun hmem => ⟨_, hmem, rfl⟩

theorem not_mem_of_ends (h : ends calls = 0) : .ended ∉ calls :=
  fun hmem => absurd (ends_pos.mpr hmem) (by omega)

namespace EndsLast

variable {calls more : List (SinkCall σ β)}

theorem of_not_mem (h : .ended ∉ calls) : EndsLast calls := by
  intro before after heq
  exact absurd (heq ▸ List.mem_append_right _ (List.mem_cons_self ..)) h

theorem append (h : EndsLast calls) (hmore : payloads more = []) : EndsLast (calls ++ more) := by
  intro before after heq
  rcases List.append_eq_append_iff.mp heq with ⟨gap, hbefore, hmoreEq⟩ | ⟨gap, hcalls, hafter⟩
  · -- the end is among the new calls
    rw [hmoreEq, payloads_append] at hmore
    have htail := (List.append_eq_nil_iff.mp hmore).2
    exact htail
  · cases gap with
    | nil =>
      rw [List.nil_append] at hafter
      rw [← hafter] at hmore
      exact hmore
    | cons call rest =>
      obtain ⟨rfl, hrest⟩ := List.cons.inj hafter
      rw [hrest, List.append_eq, payloads_append, h before rest hcalls, hmore]
      rfl

end EndsLast

theorem reaches_append {a b : List (SinkCall σ β)} {head : Nat} :
    Reaches (a ++ b) head ↔ Reaches a head ∨ Reaches b head := by
  simp only [Reaches, List.mem_append]
  constructor
  · grind
  · rintro (⟨payload, endsAt, sniffed, blocks, hmem, hle⟩ | ⟨payload, endsAt, sniffed, blocks, hmem, hle⟩)
    · exact ⟨payload, endsAt, sniffed, blocks, .inl hmem, hle⟩
    · exact ⟨payload, endsAt, sniffed, blocks, .inr hmem, hle⟩

theorem not_reaches_of_forall
    (h : ∀ call ∈ calls, ∀ payload endsAt sniffed blocks, call ≠ .chunk payload endsAt sniffed blocks)
    (head : Nat) : ¬Reaches calls head := by
  rintro ⟨payload, endsAt, sniffed, blocks, hmem, _⟩
  exact h _ hmem payload endsAt sniffed blocks rfl

theorem Guarded.gap_calls :
    ∀ call ∈ g.gap name offset, ∃ line, call = .log line := by
  unfold Guarded.gap
  intro call hcall
  split at hcall
  case h_1 => exact absurd hcall List.not_mem_nil
  case h_2 =>
    grind

/-- `bytes` declares no end itself, and its chunk reaches as far as the
frame does. -/
theorem Guarded.bytes_ends {payload : List UInt8}
    {handover : Handover σ β} (h : (g.bytes name offset payload).2 = some handover) :
    ends handover.calls = 0 ∧ ∀ head, Reaches handover.calls head → head ≤ offset + payload.length := by
  have hgap : ends (g.gap name offset) = 0 := by
    rw [← Nat.le_zero, ← Nat.not_lt]
    intro hpos
    obtain ⟨line, hline⟩ := gap_calls _ (ends_pos.mp hpos)
    contradiction
  have hquiet : ∀ head, ¬Reaches (g.gap name offset) head :=
    not_reaches_of_forall fun call hcall _ _ _ _ heq => by
      obtain ⟨line, hline⟩ := gap_calls call hcall
      rw [hline] at heq
      contradiction
  cases hstopped : g.stopped with
  | true => simp [bytes, hstopped] at h
  | false =>
    simp only [bytes, hstopped] at h
    obtain rfl := Option.some.inj h
    rw [ends_append, hgap]
    refine ⟨by split <;> rfl, fun head hreaches => ?_⟩
    rcases reaches_append.mp hreaches with hlog | ⟨body, endsAt, sniffed, blocks, hmem, hle⟩
    · exact absurd hlog (hquiet head)
    · grind

/-! ## §2 One stream -/

/-- The reader goes on to `finish`. -/
def Reader.Closing : Reader σ β → Prop
  | .handing _ handover => handover.last = true
  | .finishing _ => True
  | _ => False

/-- The ends the reader is about to tell. -/
def Reader.owed : Reader σ β → Nat
  | .ending _ => 1
  | _ => 0

/-- The stream's own thread goes on to `finish`. -/
def Acceptor.Closing : Acceptor → Prop
  | .finishing => True
  | _ => False

/-- The ends the stream's own thread is about to tell. -/
def Acceptor.owed : Acceptor → Nat
  | .ending => 1
  | _ => 0

/-- What holds of one stream and the reader, as far as the reader is busy
with it: the end is told or owed once the latch is set, and a thread that
goes for the latch has the whole output behind it. -/
structure Ending (produced : List UInt8) (pumpEnded : Bool) (installed : Prop) (t : Stream σ β)
    (r : Reader σ β) : Prop where
  told : ends t.calls + r.owed + t.acceptor.owed = if t.guarded.reportedEof then 1 else 0
  unended : ends r.calls = 0
  atEnd : t.guarded.reportedEof = true ∨ r.Closing ∨ t.acceptor.Closing → installed →
    pumpEnded = true ∧ t.guarded.expectedOffset = some produced.length
  endsAt : ∀ e, t.guarded.endsAt = some e → pumpEnded = true ∧ e = produced.length
  quiet : .ended ∈ t.calls → payloads r.calls = []
  last : EndsLast t.calls
  reach : ∀ head, Reaches (t.calls ++ r.calls) head →
    ∃ e, t.guarded.expectedOffset = some e ∧ head ≤ e
  answered : ∀ position, t.position = some position → t.acceptor = .replied position ∨
    (t.guarded.expectedOffset.isSome ∧
      (position.ended = true → t.guarded.endsAt = some position.head))
  declared : ∀ position e, t.position = some position → position.ended = true →
    t.guarded.expectedOffset = some e → position.head ≤ e →
    t.acceptor = .replied position ∨ t.guarded.reportedEof = true ∨ r.Closing ∨ t.acceptor.Closing

namespace Ending

variable {produced : List UInt8} {pumpEnded : Bool} {installed : Prop} {t : Stream σ β}
  {r : Reader σ β}
variable {k : Nat}
variable {position : StreamPosition} {handover : Handover σ β}

theorem fresh (installed : Prop) :
    Ending produced pumpEnded installed ({ guarded := { started := true } } : Stream σ β) .idle where
  told := rfl
  unended := rfl
  atEnd h _ := by
    rcases h with h | h | h <;> contradiction
  endsAt _ h := by contradiction
  quiet h := absurd h List.not_mem_nil
  last := .of_not_mem List.not_mem_nil
  reach _ h := by
    obtain ⟨_, _, _, _, hmem, _⟩ := h
    exact absurd hmem List.not_mem_nil
  answered _ h := by contradiction
  declared _ _ h := by contradiction

theorem grow (h : Ending produced false installed t r) (more : List UInt8) :
    Ending (produced ++ more) false installed t r :=
  { h with
    atEnd := fun hover hinstalled => absurd (h.atEnd hover hinstalled).1 (by simp)
    endsAt := fun e he => absurd (h.endsAt e he).1 (by simp) }

section

variable (h : Ending produced pumpEnded installed t r)
include h

theorem finishPump : Ending produced true installed t r :=
  { h with
    atEnd := fun hover hinstalled => ⟨rfl, (h.atEnd hover hinstalled).2⟩
    endsAt := fun e he => ⟨rfl, (h.endsAt e he).2⟩ }

theorem uninstall {installed' : Prop}
    (hinstalled : installed' → installed) : Ending produced pumpEnded installed' t r :=
  { h with atEnd := fun hover hi => h.atEnd hover (hinstalled hi) }

theorem once : ends t.calls ≤ 1 := by
  have htold := h.told
  split at htold <;> omega

theorem latched (hended : .ended ∈ t.calls) : t.guarded.reportedEof = true := by
  have hpos := ends_pos.mpr hended
  have htold := h.told
  split at htold
  case isTrue heof => exact heof
  case isFalse => omega

end

theorem declared_idle (h : Ending produced pumpEnded installed t .idle) (hdone : t.acceptor = .done)
    (hposition : t.position = some position) (hended : position.ended = true)
    (hreach : Reaches t.calls position.head ∨
      ∃ e, t.guarded.expectedOffset = some e ∧ position.head ≤ e) : .ended ∈ t.calls := by
  obtain ⟨e, he, hle⟩ : ∃ e, t.guarded.expectedOffset = some e ∧ position.head ≤ e := by
    rcases hreach with hcalls | hoffset
    · exact h.reach _ (reaches_append.mpr (.inl hcalls))
    · exact hoffset
  have heof : t.guarded.reportedEof = true := by
    rcases h.declared position e hposition hended he hle with hreplied | heof | hreader | haccept
    · rw [hdone] at hreplied
      contradiction
    · exact heof
    · exact hreader.elim
    · rw [hdone] at haccept
      exact haccept.elim
  have htold := h.told
  rw [heof, hdone] at htold
  simp only [Reader.owed, Acceptor.owed] at htold
  exact ends_pos.mp (by simp at htold; omega)

theorem bytes (h : Ending produced pumpEnded installed t .idle) (hinstalled : installed)
    (hexpected : ∀ e, t.guarded.expectedOffset = some e → e ≤ produced.length) {name : String}
    {offset : Nat} {payload : List UInt8} (hplaced : Placed produced offset payload)
    (hhandover : (t.guarded.bytes name offset payload).2 = some handover) (k : Nat) (origin : Option Nat) :
    Ending produced pumpEnded installed
      { t with guarded := (t.guarded.bytes name offset payload).1, origin } (.handing k handover) := by
  have hend := hplaced.end_le
  have hlive : t.guarded.stopped = false := by
    cases hstopped : t.guarded.stopped with
    | false => rfl
    | true =>
      grind [Guarded.bytes_stopped]
  obtain ⟨_, hsame, hpayloads, hlast⟩ := @Guarded.bytes_live _ _ name _ hlive offset payload
  obtain rfl := Option.some.inj (hhandover.symm.trans hsame)
  obtain ⟨hunended, hreaches⟩ := Guarded.bytes_ends hhandover
  obtain ⟨_, hendsAt, heof⟩ := @Guarded.kept_bytes _ _ name t.guarded offset payload
  -- the offset moves to the end of the frame, unless it was beyond
  obtain ⟨next, hnext, hmax, hframe, hceil⟩ : ∃ next,
      (t.guarded.bytes name offset payload).1.expectedOffset = some next ∧
      (∀ e, t.guarded.expectedOffset = some e → next = max e (offset + payload.length)) ∧
      offset + payload.length ≤ next ∧ next ≤ produced.length := by
    rw [Guarded.expected_bytes, hlive]
    cases hwas : t.guarded.expectedOffset with
    | none => exact ⟨_, rfl, fun _ h => by contradiction, Nat.le_refl _, hend⟩
    | some expected =>
      grind
  have hfloor : ∀ e, t.guarded.expectedOffset = some e → e ≤ next := fun e he => by
    rw [hmax e he]
    exact Nat.le_max_left ..
  have hpast : handover.last = true ↔
      ∃ stop, t.guarded.endsAt = some stop ∧ stop ≤ offset + payload.length := by
    rw [hlast, Option.any_eq_true]
    simp
  have hover (hset : t.guarded.reportedEof = true ∨ t.acceptor.Closing) :
      pumpEnded = true ∧ t.guarded.expectedOffset = some produced.length := by
    refine h.atEnd ?_ hinstalled
    exact hset.imp_right Or.inr
  exact {
    told := by
      rw [heof]
      exact h.told
    unended := hunended
    atEnd := by
      rw [heof, hnext]
      rintro hset -
      rcases hset with hset | hlastCall | hset
      · grind
      · obtain ⟨stop, hstop, hle⟩ := hpast.mp hlastCall
        obtain ⟨hpump, rfl⟩ := h.endsAt stop hstop
        exact ⟨hpump, congrArg some (Nat.le_antisymm hceil (Nat.le_trans hle hframe))⟩
      · grind
    endsAt := by
      rw [hendsAt]
      exact h.endsAt
    quiet := by
      intro hended
      obtain ⟨_, hall⟩ := hover (.inl (h.latched hended))
      rw [Reader.calls, hpayloads, Guarded.overlap, hall]
      exact List.drop_eq_nil_of_le (by dsimp only; omega)
    last := h.last
    reach := by
      intro head hreach
      refine ⟨next, hnext, ?_⟩
      rcases reaches_append.mp hreach with hold | hnew
      · obtain ⟨e, he, hle⟩ := h.reach head (reaches_append.mpr (.inl hold))
        exact Nat.le_trans hle (hfloor e he)
      · exact Nat.le_trans (hreaches head hnew) hframe
    answered := by
      intro position hposition
      rw [hnext, hendsAt]
      exact (h.answered position hposition).imp_right fun hanswered => ⟨rfl, hanswered.2⟩
    declared := by
      intro position e hposition hended he hle
      rw [hnext] at he
      obtain rfl := Option.some.inj he
      rw [heof]
      rcases h.answered position hposition with hreplied | ⟨hsome, hstop⟩
      · exact .inl hreplied
      · obtain ⟨old, hold⟩ := Option.isSome_iff_exists.mp hsome
        by_cases hreached : position.head ≤ old
        case pos =>
          rcases h.declared position old hposition hended hold hreached with hreplied | heof | hc | hc
          · exact .inl hreplied
          · exact .inr (.inl heof)
          · exact hc.elim
          · exact .inr (.inr (.inr hc))
        case neg =>
          -- this frame is the one that reaches the end
          have hnew := hmax old hold
          exact .inr (.inr (.inl (hpast.mpr ⟨_, hstop hended, by omega⟩))) }

theorem aside (h : Ending produced pumpEnded installed t r) {guarded : Guarded σ β}
    (hexpected : guarded.expectedOffset = t.guarded.expectedOffset)
    (hendsAt : guarded.endsAt = t.guarded.endsAt) (heof : guarded.reportedEof = t.guarded.reportedEof) :
    Ending produced pumpEnded installed { t with guarded } r where
  told := by
    rw [heof]
    exact h.told
  unended := h.unended
  atEnd := by
    rw [hexpected, heof]
    exact h.atEnd
  endsAt := by
    rw [hendsAt]
    exact h.endsAt
  quiet := h.quiet
  last := h.last
  reach := by
    rw [hexpected]
    exact h.reach
  answered := by
    rw [hexpected, hendsAt]
    exact h.answered
  declared := by
    rw [hexpected, heof]
    exact h.declared

theorem hand (h : Ending produced pumpEnded installed t (.handing k handover)) :
    Ending produced pumpEnded installed { t with calls := t.calls ++ handover.calls }
      (if handover.last then .finishing k else .idle) := by
  have hunended : ends handover.calls = 0 := h.unended
  have hcalls : (if handover.last then .finishing k else .idle : Reader σ β).calls = [] := by
    split <;> rfl
  have howed : (if handover.last then .finishing k else .idle : Reader σ β).owed = 0 := by
    split <;> rfl
  have hclosing : (if handover.last then .finishing k else .idle : Reader σ β).Closing
      ↔ (Reader.handing k handover).Closing := by
    split <;> simp_all [Reader.Closing]
  exact {
    told := by
      rw [howed, ends_append, hunended]
      exact h.told
    unended := by
      rw [hcalls]
      rfl
    atEnd := by
      rw [hclosing]
      exact h.atEnd
    endsAt := h.endsAt
    quiet := fun _ => by
      rw [hcalls]
      rfl
    last := by
      by_cases hended : .ended ∈ t.calls
      case pos => exact h.last.append (h.quiet hended)
      case neg =>
        refine .of_not_mem fun hmem => ?_
        rcases List.mem_append.mp hmem with hold | hnew
        · exact hended hold
        · exact not_mem_of_ends hunended hnew
    reach := by
      rw [hcalls, List.append_nil]
      exact h.reach
    answered := h.answered
    declared := by
      rw [hclosing]
      exact h.declared }

/-- The reader goes for the latch when the pane's `exited` arrives; the sink
of the pane is gone with it. -/
theorem exited (h : Ending produced pumpEnded installed t .idle) (k : Nat) :
    Ending produced pumpEnded False t (.finishing k) where
  told := h.told
  unended := rfl
  atEnd _ hinstalled := hinstalled.elim
  endsAt := h.endsAt
  quiet _ := rfl
  last := h.last
  reach := h.reach
  answered := h.answered
  declared _ _ _ _ _ _ := .inr (.inr (.inl trivial))

theorem readerFinish (h : Ending produced pumpEnded installed t (.finishing k)) :
    Ending produced pumpEnded installed { t with guarded := t.guarded.finish.2 }
      (if t.guarded.finish.1 then .ending k else .idle) := by
  have hcalls : (if t.guarded.finish.1 then .ending k else .idle : Reader σ β).calls = [] := by
    split <;> rfl
  exact {
    told := by
      have htold := h.told
      cases heof : t.guarded.reportedEof <;>
        simp_all [Guarded.finish, Reader.owed]
    unended := by
      rw [hcalls]
      rfl
    atEnd := fun _ hinstalled => h.atEnd (.inr (.inl trivial)) hinstalled
    endsAt := h.endsAt
    quiet := fun _ => by
      rw [hcalls]
      rfl
    last := h.last
    reach := by
      rw [hcalls]
      exact h.reach
    answered := h.answered
    declared := fun _ _ _ _ _ _ => .inr (.inl rfl) }

theorem readerEnd (h : Ending produced pumpEnded installed t (.ending k)) :
    Ending produced pumpEnded installed { t with calls := t.calls ++ [.ended] } .idle where
  told := by
    have htold := h.told
    rw [ends_append, ends_ended]
    exact htold
  unended := rfl
  atEnd hover hinstalled := by
    refine h.atEnd ?_ hinstalled
    rcases hover with heof | hc | hc
    · exact .inl heof
    · exact hc.elim
    · exact .inr (.inr hc)
  endsAt := h.endsAt
  quiet _ := rfl
  last := h.last.append rfl
  reach head hreach := by
    rcases reaches_append.mp hreach with hcalls | hnone
    · rcases reaches_append.mp hcalls with hold | hended
      · exact h.reach head (reaches_append.mpr (.inl hold))
      · exact absurd hended (not_reaches_of_forall (by simp) head)
    · exact absurd hnone (not_reaches_of_forall (by simp [Reader.calls]) head)
  answered := h.answered
  declared position e hposition hended he hle := by
    rcases h.declared position e hposition hended he hle with hreplied | heof | hc | hc
    · exact .inl hreplied
    · exact .inr (.inl heof)
    · exact hc.elim
    · exact .inr (.inr (.inr hc))

section

variable (h : Ending produced pumpEnded installed t r)
include h

theorem reply (hwaiting : t.acceptor = .waiting) (position : StreamPosition) :
    Ending produced pumpEnded installed
      { t with acceptor := .replied position, position := some position } r where
  told := by
    have htold := h.told
    rw [hwaiting] at htold
    exact htold
  unended := h.unended
  atEnd hover hinstalled := by
    refine h.atEnd ?_ hinstalled
    exact hover.imp_right fun hc => .inl (hc.resolve_right id)
  endsAt := h.endsAt
  quiet := h.quiet
  last := h.last
  reach := h.reach
  answered p hp := by
    obtain rfl := Option.some.inj hp
    exact .inl rfl
  declared p e hp _ _ _ := by
    obtain rfl := Option.some.inj hp
    exact .inl rfl

theorem accept (hacceptor : t.acceptor = .replied position) (hposition : t.position = some position)
    (hanswer : Answers produced pumpEnded position)
    (hexpected : ∀ e, t.guarded.expectedOffset = some e → e ≤ produced.length)
    {lines : List (SinkCall σ β)} (hlines : ∀ call ∈ lines, ∃ line, call = .log line) (origin : Option Nat) :
    Ending produced pumpEnded installed
      { t with
        guarded := (t.guarded.accept position).2
        origin
        calls := t.calls ++ lines
        acceptor := if (t.guarded.accept position).1 then .finishing else .done } r := by
  obtain ⟨reached, hreached, hmoved, hle⟩ : ∃ reached,
      (t.guarded.accept position).2.expectedOffset = some reached ∧
      (∀ e, t.guarded.expectedOffset = some e → reached = e) ∧ reached ≤ produced.length := by
    refine ⟨_, rfl, fun e he => by rw [he]; rfl, ?_⟩
    cases hwas : t.guarded.expectedOffset with
    | none => exact Nat.le_trans hanswer.start_le hanswer.head_le
    | some expected => exact hexpected expected hwas
  have hfinished : (t.guarded.accept position).1 = true ↔
      position.ended = true ∧ position.head ≤ reached := by
    grind [Guarded.accept]
  have hplain : ends lines = 0 := by
    rw [← Nat.le_zero, ← Nat.not_lt]
    intro hpos
    obtain ⟨line, hline⟩ := hlines _ (ends_pos.mp hpos)
    contradiction
  have hsilent : payloads lines = [] := by
    grind [payloads, List.flatMap_eq_nil_iff]
  exact {
    told := by
      have htold := h.told
      rw [hacceptor] at htold
      rw [ends_append, hplain]
      refine Eq.trans ?_ htold
      split <;> rfl
    unended := h.unended
    atEnd := by
      intro hover hinstalled
      have hold (hc : t.guarded.reportedEof = true ∨ r.Closing) : pumpEnded = true ∧
          (t.guarded.accept position).2.expectedOffset = some produced.length := by
        obtain ⟨hpump, hall⟩ := h.atEnd (hc.imp_right Or.inl) hinstalled
        rw [hreached, hmoved _ hall]
        exact ⟨hpump, rfl⟩
      rcases hover with heof | hc | hc
      · exact hold (.inl heof)
      · exact hold (.inr hc)
      · split at hc
        case isFalse => exact hc.elim
        case isTrue hfin =>
          obtain ⟨hended, hpast⟩ := hfinished.mp hfin
          obtain ⟨hpump, hhead⟩ := hanswer.final hended
          exact ⟨hpump, by rw [hreached, Nat.le_antisymm hle (hhead ▸ hpast)]⟩
    endsAt := by
      intro e he
      simp only [Guarded.accept] at he
      split at he
      case isTrue hended =>
        obtain rfl := Option.some.inj he
        exact hanswer.final hended
      case isFalse => contradiction
    quiet := by
      intro hended
      rcases List.mem_append.mp hended with hold | hnew
      · exact h.quiet hold
      · exact absurd hnew (not_mem_of_ends hplain)
    last := h.last.append hsilent
    reach := by
      intro head hreach
      refine ⟨reached, hreached, ?_⟩
      have hquiet : ¬Reaches lines head :=
        not_reaches_of_forall (fun call hcall _ _ _ _ heq => by
          grind) head
      have hbefore : Reaches (t.calls ++ r.calls) head := by
        rcases reaches_append.mp hreach with hcalls | hreader
        · exact reaches_append.mpr (.inl ((reaches_append.mp hcalls).resolve_right hquiet))
        · exact reaches_append.mpr (.inr hreader)
      obtain ⟨e, he, hhead⟩ := h.reach head hbefore
      rw [hmoved e he]
      exact hhead
    answered := by
      intro p hp
      rw [hposition] at hp
      obtain rfl := Option.some.inj hp
      exact .inr ⟨rfl, fun hended => if_pos hended⟩
    declared := by
      intro p e hp hended he hhead
      rw [hposition] at hp
      obtain rfl := Option.some.inj hp
      rw [hreached] at he
      obtain rfl := Option.some.inj he
      rw [if_pos (hfinished.mpr ⟨hended, hhead⟩)]
      exact .inr (.inr (.inr trivial)) }

theorem acceptFinish (hacceptor : t.acceptor = .finishing) : Ending produced pumpEnded installed
      { t with
        guarded := t.guarded.finish.2
        acceptor := if t.guarded.finish.1 then .ending else .done } r where
  told := by
    have htold := h.told
    cases heof : t.guarded.reportedEof <;>
      simp_all [Guarded.finish, Acceptor.owed]
  unended := h.unended
  atEnd _ hinstalled := h.atEnd (.inr (.inr (by rw [hacceptor]; trivial))) hinstalled
  endsAt := h.endsAt
  quiet := h.quiet
  last := h.last
  reach := h.reach
  answered p hp := by
    rcases h.answered p hp with hreplied | hanswered
    · rw [hacceptor] at hreplied
      contradiction
    · exact .inr hanswered
  declared _ _ _ _ _ _ := .inr (.inl rfl)

/-- The stream's own thread declares the end, with no bytes in the reader's
hand. -/
theorem acceptEnd (hacceptor : t.acceptor = .ending) (hquiet : payloads r.calls = []) :
    Ending produced pumpEnded installed { t with calls := t.calls ++ [.ended], acceptor := .done }
      r where
  told := by
    have htold := h.told
    rw [hacceptor] at htold
    rw [ends_append, ends_ended]
    simp only [Acceptor.owed] at htold ⊢
    omega
  unended := h.unended
  atEnd hover hinstalled := by
    refine h.atEnd ?_ hinstalled
    exact hover.imp_right fun hc => .inl (hc.resolve_right id)
  endsAt := h.endsAt
  quiet _ := hquiet
  last := h.last.append rfl
  reach head hreach := by
    refine h.reach head ?_
    rcases reaches_append.mp hreach with hcalls | hreader
    · rcases reaches_append.mp hcalls with hold | hended
      · exact reaches_append.mpr (.inl hold)
      · exact absurd hended (not_reaches_of_forall (by simp) head)
    · exact reaches_append.mpr (.inr hreader)
  answered p hp := by
    rcases h.answered p hp with hreplied | hanswered
    · rw [hacceptor] at hreplied
      contradiction
    · exact .inr hanswered
  declared p e hp hended he hhead := by
    rcases h.declared p e hp hended he hhead with hreplied | heof | hc | hc
    · rw [hacceptor] at hreplied
      contradiction
    · exact .inr (.inl heof)
    · exact .inr (.inr (.inl hc))
    · rw [hacceptor] at hc
      exact hc.elim

end

end Ending

/-! ## §3 A run -/

namespace Seam

/-- The end a stream's own thread declares waits for the chunk the reader
has in hand for it. -/
def EndInOrder (s : Seam σ β) : SeamOp σ β → Prop
  | .acceptEnd k => (s.streams k).acceptor = .ending → payloads (s.reader.on k).calls = []
  | _ => True

/-- Every stream, with the reader as far as it sees it. -/
def EndsInOrder (s : Seam σ β) : Prop :=
  ∀ k, Ending s.produced s.pumpEnded (s.sink = some k) (s.streams k) (s.reader.on k)

namespace EndsInOrder

variable {s : Seam σ β}
variable {k : Nat}
variable {s' : Seam σ β} {f : Stream σ β → Stream σ β} {reader : Reader σ β}

theorem new (capacity : Nat) : (new capacity : Seam σ β).EndsInOrder := fun k =>
  (Ending.fresh (none = some k)).aside rfl rfl rfl

section

variable (h : s.EndsInOrder)
include h

theorem at_stream (hproduced : s'.produced = s.produced) (hpump : s'.pumpEnded = s.pumpEnded)
    (hothers : ∀ i, i ≠ k → (s'.sink = some i → s.sink = some i) ∧ s'.streams i = s.streams i ∧
      s'.reader.on i = s.reader.on i)
    (hk : Ending s.produced s.pumpEnded (s'.sink = some k) (s'.streams k) (s'.reader.on k)) :
    s'.EndsInOrder := by
  intro i
  rw [hproduced, hpump]
  by_cases hi : i = k
  case pos =>
    obtain rfl := hi
    exact hk
  case neg =>
    obtain ⟨hsink, hstreams, hreader⟩ := hothers i hi
    rw [hstreams, hreader]
    exact (h i).uninstall hsink

theorem turn (hwas : s.reader.At k) (hnow : reader.At k)
    (hk : Ending s.produced s.pumpEnded (s.sink = some k) (f (s.streams k)) reader) :
    EndsInOrder { s.modify k f with reader } := by
  refine h.at_stream (k := k) rfl rfl (fun i hi => ⟨id, s.modify_other hi f, ?_⟩) ?_
  · rw [hwas.on_other hi, hnow.on_other hi]
  · rw [s.modify_self, hnow.on_self]
    exact hk

theorem modify (hk : Ending s.produced s.pumpEnded (s.sink = some k) (f (s.streams k)) (s.reader.on k)) :
    (s.modify k f).EndsInOrder := by
  refine h.at_stream (k := k) rfl rfl (fun i hi => ⟨id, s.modify_other hi f, rfl⟩) ?_
  rw [s.modify_self]
  exact hk

theorem busy (hreader : s.reader = reader)
    (hat : reader.At k) : Ending s.produced s.pumpEnded (s.sink = some k) (s.streams k) reader := by
  have hk := h k
  rwa [hreader, hat.on_self] at hk

theorem append (chunk : List UInt8) (sniffed : List σ) (blocks : List β) :
    (s.append chunk sniffed blocks).EndsInOrder := by
  unfold Seam.append
  split
  case isTrue => exact h
  case isFalse hidle =>
    have hrunning : s.pumpEnded = false := by simp at hidle; exact hidle.2
    intro k
    have hk := h k
    rw [hrunning] at hk
    rw [hrunning]
    exact hk.grow chunk

theorem finishPump : s.finishPump.EndsInOrder := by
  unfold Seam.finishPump
  split
  case isTrue => exact h
  case isFalse => exact fun k => (h k).finishPump

theorem superd (hproduced : s'.produced = s.produced)
    (hpump : s'.pumpEnded = s.pumpEnded) (hsink : s'.sink = s.sink) (hstreams : s'.streams = s.streams)
    (hreader : s'.reader = s.reader) : s'.EndsInOrder := by
  intro k
  rw [hproduced, hpump, hsink, hstreams, hreader]
  exact h k

theorem start (horderly : s.Orderly) (fromOffset : Nat) : (s.start fromOffset).EndsInOrder := by
  have hidle : s.reader.on s.started = .idle :=
    if_neg fun hbusy => Nat.lt_irrefl _ (horderly.reader _ hbusy)
  rw [start_eq]
  refine h.at_stream (k := s.started) rfl rfl (fun i hi => ⟨fun hsink => ?_, ?_, rfl⟩) ?_
  · exact absurd (Option.some.inj hsink).symm hi
  · exact s.modify_other hi fun _ => { guarded := { started := true } }
  · rw [s.modify_self, show (s.modify s.started fun _ => _).reader.on s.started = .idle from hidle]
    exact Ending.fresh _

theorem stop (k : Nat) : (s.stop k).EndsInOrder := by
  have hstopped : EndsInOrder (s.modify k fun t => { t with guarded := (s.streams k).guarded.stop.2.2 }) :=
    h.modify ((h k).aside rfl rfl rfl)
  unfold Seam.stop
  dsimp only
  split
  case isFalse => exact hstopped
  case isTrue => exact fun i => (hstopped i).uninstall fun hnone => by contradiction

theorem deliver (hsound : s.Sound) (hidle : s.reader = .idle) (name : String)
    (hk : s.sink = some k) {offset : Nat} {payload : List UInt8}
    (hplaced : Placed s.produced offset payload) : (s.deliver name k offset payload).EndsInOrder := by
  obtain ⟨_, hendsAt, heof⟩ := @Guarded.kept_bytes _ _ name (s.streams k).guarded offset payload
  have hending := h.busy (k := k) hidle (.inl rfl)
  unfold Seam.deliver
  dsimp only
  split
  case h_1 hnone =>
    have hexpected : ((s.streams k).guarded.bytes name offset payload).1.expectedOffset
        = (s.streams k).guarded.expectedOffset := by
      cases hstopped : (s.streams k).guarded.stopped with
      | true => rw [Guarded.expected_bytes, hstopped]; rfl
      | false =>
        obtain ⟨_, hsome, _⟩ := @Guarded.bytes_live _ _ name _ hstopped offset payload
        rw [hnone] at hsome
        contradiction
    exact h.modify ((h k).aside hexpected hendsAt heof)
  case h_2 handover hhandover =>
    exact h.turn (.inl hidle) (.inr rfl)
      (hending.bytes hk (hsound.streams k).expected hplaced hhandover k _)

theorem read (hsound : s.Sound) (horderly : s.Orderly) (name : String) : (s.read name).EndsInOrder := by
  unfold Seam.read
  split
  case h_2 => exact h
  case h_1 frame rest hidle hlink =>
    have hsound' : Sound { s with link := rest } :=
      { hsound with
        outputs := fun x hx => hsound.outputs x (by
          rw [hlink, outputs_cons]
          exact List.mem_append_right _ hx)
        replies := fun x hx => hsound.replies x (by
          rw [hlink, replies_cons]
          exact List.mem_append_right _ hx) }
    have hrest : EndsInOrder { s with link := rest } := h
    dsimp only
    split
    case h_1 k position =>
      have hasked : k ∈ s.pending := by simp [pending, hlink, replies]
      exact hrest.modify ((h k).reply (horderly.asked k hasked).2.1 position)
    case h_2 events k _ => exact hrest.modify ((h k).aside rfl rfl rfl)
    case h_3 events k _ => exact hrest.modify ((h k).aside rfl rfl rfl)
    case h_4 offset payload k hsink =>
      have hplaced := hsound.outputs (offset, payload) (by simp [hlink, HostPane.outputs])
      exact hrest.deliver hsound' hidle name hsink hplaced
    case h_5 k hsink =>
      have hending := h.busy (k := k) hidle (.inl rfl)
      have hfinishing : (.finishing k : Reader σ β).At k := .inr rfl
      refine h.at_stream (k := k) rfl rfl (fun i hi => ⟨fun hnone => by contradiction, rfl, ?_⟩) ?_
      · rw [hfinishing.on_other hi, hidle]
        rfl
      · rw [hfinishing.on_self]
        exact (hending.exited k).uninstall fun hnone => by contradiction
    case h_6 => exact hrest

theorem hand : s.hand.EndsInOrder := by
  unfold Seam.hand
  split
  case h_2 => exact h
  case h_1 k handover hreader =>
    have hat : s.reader.At k := .inr (congrArg Reader.stream hreader)
    exact h.turn hat (Reader.at_ite (.inr rfl) (.inl rfl)) (h.busy hreader (.inr rfl)).hand

theorem readerFinish : s.readerFinish.EndsInOrder := by
  unfold Seam.readerFinish
  split
  case h_2 => exact h
  case h_1 k hreader =>
    have hat : s.reader.At k := .inr (congrArg Reader.stream hreader)
    exact h.turn hat (Reader.at_ite (.inr rfl) (.inl rfl)) (h.busy hreader (.inr rfl)).readerFinish

theorem readerEnd : s.readerEnd.EndsInOrder := by
  unfold Seam.readerEnd
  split
  case h_2 => exact h
  case h_1 k hreader =>
    have hat : s.reader.At k := .inr (congrArg Reader.stream hreader)
    exact h.turn hat (.inl rfl) (h.busy hreader (.inr rfl)).readerEnd

theorem accept (hsound : s.Sound) (name : String) (k : Nat) : (s.accept name k).EndsInOrder := by
  unfold Seam.accept
  split
  case h_2 => exact h
  case h_1 position hreplied =>
    have hposition := (hsound.streams k).acceptor position hreplied
    have hanswer := (hsound.streams k).position position hposition
    refine h.modify ?_
    refine (h k).accept hreplied hposition hanswer (hsound.streams k).expected ?_ _
    intro call hcall
    split at hcall
    case isTrue => exact ⟨_, List.mem_singleton.mp hcall⟩
    case isFalse => exact absurd hcall List.not_mem_nil

theorem acceptFinish (k : Nat) : (s.acceptFinish k).EndsInOrder := by
  unfold Seam.acceptFinish
  split
  case h_2 => exact h
  case h_1 hfinishing => exact h.modify ((h k).acceptFinish hfinishing)

theorem acceptEnd (hok : s.EndInOrder (.acceptEnd k)) : (s.acceptEnd k).EndsInOrder := by
  unfold Seam.acceptEnd
  split
  case h_2 => exact h
  case h_1 hending => exact h.modify ((h k).acceptEnd hending (hok hending))

theorem step (hsound : s.Sound) (horderly : s.Orderly) (limit : Nat)
    (name : String) {op : SeamOp σ β} (hok : s.EndInOrder op) : (s.step limit name op).EndsInOrder := by
  cases op with
  | append chunk sniffed blocks => exact h.append chunk sniffed blocks
  | fanOut =>
    simp only [Seam.step, Seam.fanOut]
    split
    case h_2 => exact h
    case h_1 => split <;> exact h.superd rfl rfl rfl rfl rfl
  | finishPump => exact h.finishPump
  | notify =>
    simp only [Seam.step, Seam.notify]
    split
    case h_2 => exact h
    case h_1 =>
      split
      case isTrue => exact h.superd rfl rfl rfl rfl rfl
      case isFalse => exact h
  | serve =>
    simp only [Seam.step, Seam.serve]
    split <;> exact h.superd rfl rfl rfl rfl rfl
  | readEnded =>
    simp only [Seam.step, Seam.readEnded]
    split <;> exact h.superd rfl rfl rfl rfl rfl
  | ship sniffed =>
    simp only [Seam.step, Seam.ship]
    split <;> exact h.superd rfl rfl rfl rfl rfl
  | start fromOffset => exact h.start horderly fromOffset
  | stop k => exact h.stop k
  | read => exact h.read hsound horderly name
  | hand => exact h.hand
  | readerFinish => exact h.readerFinish
  | readerEnd => exact h.readerEnd
  | accept k => exact h.accept hsound name k
  | acceptFinish k => exact h.acceptFinish k
  | acceptEnd k => exact h.acceptEnd hok

end

end EndsInOrder

/-- A run in which a stream's own thread never declares the end over a chunk
the reader has in hand keeps every end last. -/
theorem endsInOrder_run (capacity limit : Nat) (name : String) {ops : List (SeamOp σ β)}
    (hops : Meets (step limit name) EndInOrder (Seam.new capacity) ops) :
    (run (step limit name) (Seam.new capacity) ops).EndsInOrder := by
  refine (hops.invariant (fun s => s.EndsInOrder ∧ s.Sound ∧ s.Orderly) ?_
    ⟨.new capacity, sound_new capacity, orderly_new capacity⟩).1
  rintro s op hok ⟨hends, hsound, horderly⟩
  exact ⟨hends.step hsound horderly limit name hok, hsound.step limit name op,
    horderly.step limit name op⟩

/-- **The end comes after the last byte.** It is told at most once and no
bytes follow it; and a stream that was answered with a head the pane ended
at is told of it once its bytes up to there were handed on and both threads
are through. -/
theorem end_comes_last (capacity limit : Nat) (name : String) {ops : List (SeamOp σ β)}
    (hops : Meets (step limit name) EndInOrder (Seam.new capacity) ops) (k : Nat) :
    let s := run (step limit name) (Seam.new capacity) ops
    let t := s.streams k
    ends t.calls ≤ 1 ∧ EndsLast t.calls ∧
    ∀ position, t.position = some position → position.ended = true →
      (Reaches t.calls position.head ∨
        ∃ e, t.guarded.expectedOffset = some e ∧ position.head ≤ e) →
      t.acceptor = .done → s.reader.stream ≠ some k → .ended ∈ t.calls := by
  intro s t
  have hending := endsInOrder_run capacity limit name hops k
  refine ⟨hending.once, hending.last, fun position hposition hended hreach hdone hother => ?_⟩
  rw [show s.reader.on k = .idle from if_neg hother] at hending
  exact hending.declared_idle hdone hposition hended hreach

/-- A pane that printed two bytes and ended, and a stream whose own thread
declares the end once the reader has handed them on. -/
theorem end_comes_last_backlog :
    let ops : List (SeamOp Unit Unit) := [.append [0x61, 0x62] [] [], .fanOut, .finishPump, .start 0,
      .serve, .readEnded, .ship [], .read, .read, .hand, .accept 0, .acceptFinish 0, .acceptEnd 0]
    EndsLast ((run (step 64 "p") (Seam.new 8) ops).streams 0).calls ∧
      .ended ∈ ((run (step 64 "p") (Seam.new 8) ops).streams 0).calls := by
  intro ops
  have hops : Meets (step 64 "p") EndInOrder (Seam.new 8) ops :=
    ⟨trivial, trivial, trivial, trivial, trivial, trivial, trivial, trivial, trivial, trivial, trivial,
      trivial, fun _ => rfl, trivial⟩
  obtain ⟨_, hlast, htold⟩ := end_comes_last 8 64 "p" hops 0
  exact ⟨hlast, htold ⟨0, 2, false, true⟩ (by decide +kernel) rfl
    (.inr ⟨2, by decide +kernel, Nat.le_refl 2⟩) (by rfl) (by decide +kernel)⟩

/-- The thread in `start` reads the offset the reader has moved, and
declares the end before the reader hands those bytes on. -/
theorem end_before_last_byte :
    let ops : List (SeamOp Unit Unit) := [.append [0x61, 0x62] [] [], .fanOut, .finishPump, .start 0,
      .serve, .readEnded, .ship [], .read, .read, .accept 0, .acceptFinish 0, .acceptEnd 0, .hand]
    ¬EndsLast ((run (step 64 "p") (Seam.new 8) ops).streams 0).calls := by
  intro ops hlast
  have hcalls : ((run (step 64 "p") (Seam.new 8) ops).streams 0).calls
      = [.ended, .chunk [0x61, 0x62] 2 [] []] := by decide +kernel
  exact absurd (hlast [] [.chunk [0x61, 0x62] 2 [] []] hcalls) (by simp [payloads])

end Seam

end SlopDesk.HostPane
