/-
SlopDesk.Video.DecodeSequencerTheorems — what a run of completions and
losses keeps of the decode order.

§1 the id lists: within their capacity nothing is lost, and the wrap-space
sort sorts. §2 `Drain`, what the contiguous run takes off the two sets,
and what it leaves ahead of the expectation. §3 one fold, by its cases.
§4 runs, beside a ledger of what was completed, released and dropped and
of where in the stream the expectation stands.
-/
import Mathlib.Data.List.Induction
import Mathlib.Data.List.Perm.Basic
import SlopDesk.Base.Runs
import SlopDesk.Video.DecodeSequencer

namespace SlopDesk.Video

open SlopDesk.Base

namespace IdList

/-! ## §1 The id lists -/

section Lists

variable {n : Nat} (l : IdList n) {id : UInt32}

theorem ids_push (h : l.ids.length < n) : (l.push id).ids = l.ids ++ [id] := by
  simp [push, h]

theorem mem_push {x : UInt32} (h : x ∈ l.ids) : x ∈ (l.push id).ids := by
  by_cases hroom : l.ids.length < n
  · simp [l.ids_push hroom, h]
  · simpa [push, hroom] using h

theorem mem_foldl_push {l : IdList n} {xs : List UInt32} (h : id ∈ (xs.foldl push l).ids) :
    id ∈ l.ids ∨ id ∈ xs := by
  induction xs generalizing l with
  | nil => exact .inl h
  | cons x xs ih =>
    rcases ih h with hmem | hmem
    · by_cases hroom : l.ids.length < n
      · grind [l.ids_push, List.mem_append, List.mem_singleton]
      · exact .inl (by simpa [push, hroom] using hmem)
    · exact .inr (List.mem_cons_of_mem _ hmem)

theorem ids_foldl_push (xs : List UInt32) (h : l.ids.length + xs.length ≤ n) :
    (xs.foldl push l).ids = l.ids ++ xs := by
  induction xs generalizing l with
  | nil => simp
  | cons x xs ih =>
    rw [List.length_cons] at h
    have hpush : (l.push x).ids = l.ids ++ [x] := l.ids_push (by omega)
    rw [List.foldl_cons, ih _ (by grind), hpush]
    simp

theorem perm_insertSorted (h : id ∉ l.ids) (hroom : l.ids.length < n) :
    (l.insertSorted id).ids.Perm (id :: l.ids) := by
  simp only [insertSorted, h, if_false, hroom, dif_pos]
  refine List.perm_middle.trans (.cons _ ?_)
  rw [List.takeWhile_append_dropWhile]

theorem mem_of_mem_insertSorted {x : UInt32} (h : x ∈ (l.insertSorted id).ids) : x = id ∨ x ∈ l.ids := by
  by_cases hmem : id ∈ l.ids
  · simp only [insertSorted, hmem, if_true] at h
    exact .inr h
  by_cases hroom : l.ids.length < n
  · exact List.mem_cons.mp ((l.perm_insertSorted hmem hroom).mem_iff.mp h)
  · simp only [insertSorted, hmem, if_false, hroom, dif_neg, not_false_eq_true] at h
    exact .inr h

theorem remove_of_mem (h : id ∈ l.ids) :
    ∃ l' : IdList n, l.remove id = some l' ∧ l'.ids = l.ids.erase id := by
  simp [remove, h]

theorem remove_of_not_mem (h : id ∉ l.ids) : l.remove id = none := by
  simp [remove, h]

end Lists

/-! ### Extremes in wrap space -/

section Extremes

variable {S : List UInt32} {key : UInt32 → Int}

theorem foldl_choice {choice : UInt32 → UInt32 → UInt32}
    (h : ∀ x ∈ S, ∀ y ∈ S, choice x y = if key x < key y then y else x) {first : UInt32}
    {rest : List UInt32} (hfirst : first ∈ S) (hrest : ∀ x ∈ rest, x ∈ S) :
    rest.foldl choice first ∈ first :: rest ∧
      ∀ x ∈ first :: rest, key x ≤ key (rest.foldl choice first) := by
  induction rest generalizing first with
  | nil => simp
  | cons x rest ih =>
    have hx := hrest x (List.mem_cons_self ..)
    have htail : ∀ y ∈ rest, y ∈ S := fun y hy => hrest y (List.mem_cons_of_mem _ hy)
    rw [List.foldl_cons, h first hfirst x hx]
    split
    · rename_i hlt
      obtain ⟨hmem, hmax⟩ := ih hx htail
      refine ⟨List.mem_cons_of_mem _ hmem, fun y hy => ?_⟩
      rcases List.mem_cons.mp hy with rfl | hy
      · exact Int.le_trans (Int.le_of_lt hlt) (hmax x (List.mem_cons_self ..))
      · exact hmax y hy
    · obtain ⟨hmem, hmax⟩ := ih hfirst htail
      have hfirstMax := hmax first (List.mem_cons_self ..)
      refine ⟨?_, fun y hy => ?_⟩
      · grind
      · grind

theorem perm_replace {best first : UInt32} {rest : List UInt32} (h : best ∈ rest) :
    (best :: rest.replace best first).Perm (first :: rest) := by
  induction rest with
  | nil => simp at h
  | cons x rest ih =>
    by_cases heq : best = x
    · subst heq
      simpa using List.Perm.swap first best rest
    · have hmem : best ∈ rest := by simpa [heq] using h
      have hbeq : (best == x) = false := by simpa using heq
      have hstep : (x :: rest).replace best first = x :: rest.replace best first := by
        rw [List.replace_cons, hbeq]
      rw [hstep]
      calc best :: x :: rest.replace best first
        _ |>.Perm (x :: best :: rest.replace best first) := .swap ..
        _ |>.Perm (x :: first :: rest) := (ih hmem).cons x
        _ |>.Perm (first :: x :: rest) := .swap ..

theorem selectionSort_spec (h : ∀ x ∈ S, ∀ y ∈ S, distanceWrapped x y < 0 ↔ key x < key y)
    (hinj : ∀ x ∈ S, ∀ y ∈ S, key x = key y → x = y) {fuel : Nat} {ids : List UInt32}
    (hfuel : ids.length ≤ fuel) (hS : ∀ x ∈ ids, x ∈ S) (hnodup : ids.Nodup) :
    (selectionSort fuel ids).Perm ids ∧
      (selectionSort fuel ids).Pairwise fun x y => key x < key y := by
  induction fuel generalizing ids with
  | zero => simp [List.eq_nil_of_length_eq_zero (Nat.le_zero.mp hfuel), selectionSort]
  | succ fuel ih =>
    cases ids with
    | nil => simp [selectionSort]
    | cons first rest =>
      have hchoice : ∀ x ∈ S, ∀ y ∈ S, older x y = if -key x < -key y then y else x := by
        intro x hx y hy
        have hiff := h y hy x hx
        simp only [older, hiff, Int.neg_lt_neg_iff]
      obtain ⟨hbest, hmin⟩ := foldl_choice hchoice (hS first (List.mem_cons_self ..))
        fun x hx => hS x (List.mem_cons_of_mem _ hx)
      -- whatever follows the earliest id is later than it
      have hsorted : ∀ tail : List UInt32, (rest.foldl older first :: tail).Perm (first :: rest) →
          ∀ x ∈ tail, key (rest.foldl older first) < key x := by
        intro tail hperm x hx
        have hin : x ∈ first :: rest := hperm.mem_iff.mp (List.mem_cons_of_mem _ hx)
        have hne : rest.foldl older first ≠ x := by
          grind
        have hle := hmin x hin
        have hkey : key (rest.foldl older first) ≠ key x := fun heq =>
          hne (hinj _ (hS _ hbest) x (hS x hin) heq)
        omega
      have hpass : ∀ tail : List UInt32, (rest.foldl older first :: tail).Perm (first :: rest) →
          (rest.foldl older first :: selectionSort fuel tail).Perm (first :: rest) ∧
            (rest.foldl older first :: selectionSort fuel tail).Pairwise
              fun x y => key x < key y := by
        intro tail hperm
        have hlen := hperm.length_eq
        simp only [List.length_cons] at hlen hfuel
        obtain ⟨htail, hpair⟩ := @ih tail (by omega)
          (fun x hx => hS x (hperm.mem_iff.mp (List.mem_cons_of_mem _ hx)))
          (List.nodup_cons.mp (hperm.nodup_iff.mpr hnodup)).2
        refine ⟨(htail.cons _).trans hperm, List.pairwise_cons.mpr ⟨fun x hx => ?_, hpair⟩⟩
        exact hsorted tail hperm x (htail.mem_iff.mp hx)
      simp only [selectionSort]
      split
      · rename_i hfirst
        rw [hfirst] at hpass
        exact hpass rest (.refl _)
      · rename_i hother
        have hmem : rest.foldl older first ∈ rest := by simpa [hother] using hbest
        exact hpass _ (perm_replace hmem)

end Extremes

end IdList

/-! ## §2 The contiguous run -/

/-- From the expectation `expected` on, the ids `out` are taken from `held`
and others skipped from `lost`, until one is in neither. -/
inductive Drain : UInt32 → List UInt32 → List UInt32 → List UInt32 → UInt32 → List UInt32 →
    List UInt32 → Prop
  | stop {expected held lost} (hheld : expected ∉ held) (hlost : expected ∉ lost) :
      Drain expected held lost [] expected held lost
  | release {expected held lost out expected' held' lost'} (hheld : expected ∈ held)
      (hrest : Drain (expected + 1) (held.erase expected) lost out expected' held' lost') :
      Drain expected held lost (expected :: out) expected' held' lost'
  | skip {expected held lost out expected' held' lost'} (hheld : expected ∉ held)
      (hlost : expected ∈ lost)
      (hrest : Drain (expected + 1) held (lost.erase expected) out expected' held' lost') :
      Drain expected held lost out expected' held' lost'

namespace Drain

variable {expected expected' : UInt32} {held lost out held' lost' : List UInt32}

theorem perm (h : Drain expected held lost out expected' held' lost') : held.Perm (out ++ held') := by
  induction h with
  | stop => simp
  | release hheld _ ih => exact (List.perm_cons_erase hheld).trans (ih.cons _)
  | skip _ _ _ ih => exact ih

theorem sublist (h : Drain expected held lost out expected' held' lost') :
    held'.Sublist held ∧ lost'.Sublist lost := by
  induction h with
  | stop => exact ⟨.refl _, .refl _⟩
  | release _ _ ih => exact ⟨ih.1.trans (List.erase_sublist ..), ih.2⟩
  | skip _ _ _ ih => exact ⟨ih.1, ih.2.trans (List.erase_sublist ..)⟩

theorem closer {id : UInt32} (hpos : 0 ≤ distanceWrapped id expected) (hne : id ≠ expected) :
    distanceWrapped id (expected + 1) = distanceWrapped id expected - 1 ∧
      0 ≤ distanceWrapped id (expected + 1) := by
  have hzero : distanceWrapped id expected ≠ 0 := fun heq => hne (distanceWrapped_eq_zero.mp heq)
  have hsucc := distance_succ (x := id) (y := expected) (by omega)
  omega

theorem held_ahead (h : Drain expected held lost out expected' held' lost') (hnodup : held.Nodup)
    {gap : Int} (hahead : ∀ id ∈ held, 0 ≤ distanceWrapped id expected ∧
      distanceWrapped id expected ≤ gap) :
    ∀ id ∈ held', 0 < distanceWrapped id expected' ∧ distanceWrapped id expected' ≤ gap := by
  induction h with
  | @stop expected held _ hheld _ =>
    intro id hid
    have hzero : distanceWrapped id expected ≠ 0 := by
      intro heq
      exact hheld (distanceWrapped_eq_zero.mp heq ▸ hid)
    have := hahead id hid
    omega
  | @release expected held _ _ _ _ _ hheld _ ih =>
    refine ih (hnodup.erase _) fun id hid => ?_
    obtain ⟨hne, hmem⟩ := hnodup.mem_erase_iff.mp hid
    have hcloser := closer (hahead id hmem).1 hne
    have := hahead id hmem
    omega
  | @skip expected held _ _ _ _ _ hheld _ _ ih =>
    refine ih hnodup fun id hid => ?_
    have hne : id ≠ expected := fun heq => hheld (heq ▸ hid)
    have hcloser := closer (hahead id hid).1 hne
    have := hahead id hid
    omega

/-- Seen from a base both sets are ahead of, the run releases in ascending
order, between where it starts and where it ends. -/
theorem ascending {base : UInt32} {a : Int}
    (h : Drain (offset base a) held lost out expected' held' lost') (ha : 0 ≤ a)
    (hle : a ≤ 2147483648) (hahead : ∀ id, id ∈ held ∨ id ∈ lost → 0 ≤ distanceWrapped id base) :
    ∃ a', a ≤ a' ∧ a' ≤ 2147483648 ∧ expected' = offset base a' ∧
      (out.map fun id => distanceWrapped id base).Pairwise (· < ·) ∧
      ∀ id ∈ out, a ≤ distanceWrapped id base ∧ distanceWrapped id base < a' := by
  -- an id the run takes is within half the space of the base
  have hat : ∀ {a : Int} {id : UInt32}, offset base a = id → 0 ≤ a → a ≤ 2147483648 →
      0 ≤ distanceWrapped id base → distanceWrapped id base = a ∧ a < 2147483648 := by
    rintro a id rfl ha hle hpos
    have hne : a ≠ 2147483648 := by
      rintro rfl
      have hwrap : distanceWrapped (offset base 2147483648) base = -2147483648 := by
        have hsame : offset base 2147483648 = offset base (-2147483648) := rfl
        rw [hsame]
        exact distance_offset base (by decide) (by decide)
      omega
    exact ⟨distance_offset base (by omega) (by omega), by omega⟩
  generalize hexpected : offset base a = expected at h
  induction h generalizing a with
  | stop => exact ⟨a, Int.le_refl _, hle, hexpected.symm, .nil, by simp⟩
  | @release expected held lost out expected' held' lost' hmem _ ih =>
    obtain ⟨hdist, hlt⟩ := hat hexpected ha hle (hahead expected (.inl hmem))
    obtain ⟨a', hlower, hupper, heq, hpair, hout⟩ := ih (a := a + 1) (by omega) (by omega)
      (fun id hid => hahead id (hid.imp_left List.mem_of_mem_erase))
      (by rw [← offset_succ, hexpected])
    refine ⟨a', by omega, hupper, heq, ?_, ?_⟩
    · refine List.pairwise_cons.mpr ⟨fun d hd => ?_, hpair⟩
      obtain ⟨id, hid, rfl⟩ := List.mem_map.mp hd
      have hlater := (hout id hid).1
      change distanceWrapped expected base < distanceWrapped id base
      omega
    · intro id hid
      rcases List.mem_cons.mp hid with rfl | hid
      · omega
      · have := hout id hid
        omega
  | @skip expected held lost out expected' held' lost' _ hmem _ ih =>
    obtain ⟨hdist, hlt⟩ := hat hexpected ha hle (hahead expected (.inr hmem))
    obtain ⟨a', hlower, hupper, heq, hpair, hout⟩ := ih (a := a + 1) (by omega) (by omega)
      (fun id hid => hahead id (hid.imp_right List.mem_of_mem_erase))
      (by rw [← offset_succ, hexpected])
    refine ⟨a', by omega, hupper, heq, hpair, fun id hid => ?_⟩
    have := hout id hid
    omega

end Drain

/-! ## §3 One fold -/

namespace SequencerStep

@[simp] theorem released_empty : empty.released.ids = [] := rfl
@[simp] theorem dropped_empty : empty.dropped.ids = [] := rfl
@[simp] theorem released_only (frameId : UInt32) : (only frameId).released.ids = [frameId] := rfl
@[simp] theorem dropped_only (frameId : UInt32) : (only frameId).dropped.ids = [] := rfl

end SequencerStep

namespace DecodeSequencer

section Folds

variable {s : DecodeSequencer} {frameId expected : UInt32}
variable {step : SequencerStep} {arrival : List UInt32}

theorem drainLoop_drain {fuel : Nat} (hexpected : s.nextExpected = some expected)
    (hroom : step.released.ids.length + s.held.ids.length ≤ heldCapacity)
    (hfuel : s.held.ids.length + s.lostAhead.ids.length < fuel) :
    ∃ expected' out held' lost', drainLoop fuel s expected step =
        ({ s with nextExpected := some expected', held := held', lostAhead := lost' },
          { step with released := out.foldl IdList.push step.released }) ∧
      (out.foldl IdList.push step.released).ids = step.released.ids ++ out ∧
      Drain expected s.held.ids s.lostAhead.ids out expected' held'.ids lost'.ids := by
  induction fuel generalizing s expected step with
  | zero => omega
  | succ fuel ih =>
    simp only [drainLoop]
    by_cases hheld : expected ∈ s.held.ids
    · obtain ⟨held, hremove, hids⟩ := s.held.remove_of_mem hheld
      have hlen := List.length_erase_add_one hheld
      have hpush : (step.released.push expected).ids = step.released.ids ++ [expected] :=
        step.released.ids_push (by omega)
      simp only [hremove]
      obtain ⟨expected', out, held', lost', heq, hout, hdrain⟩ :=
        @ih { s with held, nextExpected := some (expected + 1) } (expected + 1)
          { step with released := step.released.push expected } rfl
          (by grind)
          (by simp only [hids]; omega)
      refine ⟨expected', expected :: out, held', lost', heq, ?_, .release hheld ?_⟩
      · simpa [hpush] using hout
      · simpa [hids] using hdrain
    · simp only [s.held.remove_of_not_mem hheld]
      by_cases hlost : expected ∈ s.lostAhead.ids
      · obtain ⟨lostAhead, hremove, hids⟩ := s.lostAhead.remove_of_mem hlost
        have hlen := List.length_erase_add_one hlost
        simp only [hremove]
        obtain ⟨expected', out, held', lost', heq, hout, hdrain⟩ :=
          @ih { s with lostAhead, nextExpected := some (expected + 1) } (expected + 1) step rfl hroom
            (by simp only [hids]; omega)
        exact ⟨expected', out, held', lost', heq, hout, .skip hheld hlost (hids ▸ hdrain)⟩
      · simp only [s.lostAhead.remove_of_not_mem hlost]
        exact ⟨expected, [], s.held, s.lostAhead, by simp [← hexpected], by simp, .stop hheld hlost⟩

theorem drainContiguous_drain (hexpected : s.nextExpected = some expected)
    (hroom : step.released.ids.length + s.held.ids.length ≤ heldCapacity) :
    ∃ expected' out held' lost', s.drainContiguous step =
        ({ s with nextExpected := some expected', held := held', lostAhead := lost' },
          { step with released := out.foldl IdList.push step.released }) ∧
      (out.foldl IdList.push step.released).ids = step.released.ids ++ out ∧
      Drain expected s.held.ids s.lostAhead.ids out expected' held'.ids lost'.ids := by
  simp only [drainContiguous, hexpected]
  exact drainLoop_drain hexpected hroom (by omega)

/-- The bounds every run keeps. -/
structure Bounded (s : DecodeSequencer) : Prop where
  held_nodup : s.held.ids.Nodup
  held_ahead : ∀ id ∈ s.held.ids, ∃ expected, s.nextExpected = some expected ∧
    0 < distanceWrapped id expected ∧ distanceWrapped id expected ≤ s.maxGap
  held_le : s.held.ids.length ≤ s.maxHeld
  lost_le : s.lostAhead.ids.length ≤ s.maxHeld + s.maxGap.natAbs

theorem Bounded.of_new (maxHeld : Nat) (maxGap : Int) : (new maxHeld maxGap).Bounded where
  held_nodup := .nil
  held_ahead := by simp [new, IdList.new]
  held_le := Nat.zero_le _
  lost_le := Nat.zero_le _

/-- Every declared loss is ahead of the expectation. -/
def LossesAhead (s : DecodeSequencer) : Prop :=
  ∀ id ∈ s.lostAhead.ids, ∀ expected ∈ s.nextExpected, 0 < distanceWrapped id expected

instance (s : DecodeSequencer) : Decidable s.LossesAhead :=
  have : DecidablePred fun id => ∀ expected ∈ s.nextExpected, 0 < distanceWrapped id expected :=
    fun _ => s.nextExpected.decidableForallMem
  List.decidableBAll _ s.lostAhead.ids

/-- The distances ahead of the expectation of the ids at or after it. -/
def ahead (expected : UInt32) (ids : List UInt32) : List Int :=
  (ids.map fun id => distanceWrapped id expected).filter (0 ≤ ·)

/-- From `expected` on, a fold with these releases goes forward: the ids
at or after the expectation ascend, and it ends past them. -/
def Forward (expected : UInt32) (result : DecodeSequencer × SequencerStep) : Prop :=
  ∃ a, 0 ≤ a ∧ a ≤ 2147483648 ∧ result.1.nextExpected = some (offset expected a) ∧
    (ahead expected result.2.released.ids).Pairwise (· < ·) ∧
    ∀ d ∈ ahead expected result.2.released.ids, d < a

/-- What one fold does with the ids that are held or arrive. -/
structure Keeps (s : DecodeSequencer) (arrival : List UInt32)
    (result : DecodeSequencer × SequencerStep) : Prop where
  maxHeld : result.1.maxHeld = s.maxHeld
  maxGap : result.1.maxGap = s.maxGap
  bounded : result.1.Bounded
  perm : (result.2.released.ids ++ result.2.dropped.ids ++ result.1.held.ids).Perm
    (arrival ++ s.held.ids)
  forward : s.LossesAhead → ∀ expected ∈ s.nextExpected, Forward expected result

/-! ### The overflow valve -/

theorem distance_ahead {x y : UInt32} (hx : 0 < distanceWrapped x expected)
    (hy : 0 < distanceWrapped y expected) :
    distanceWrapped x y = distanceWrapped x expected - distanceWrapped y expected := by
  have hxlt := distanceWrapped_lt x expected
  have hylt := distanceWrapped_lt y expected
  exact distance_sub expected (by omega) (by omega)

theorem sortWrapped_spec (hnodup : s.held.ids.Nodup)
    (hahead : ∀ id ∈ s.held.ids, 0 < distanceWrapped id expected) : s.held.sortWrapped.Perm s.held.ids ∧
      (s.held.sortWrapped.map fun id => distanceWrapped id expected).Pairwise (· < ·) := by
  have hspec := @IdList.selectionSort_spec s.held.ids (fun id => distanceWrapped id expected)
    (fun x hx y hy => by rw [distance_ahead (hahead x hx) (hahead y hy)]; omega)
    (fun x _ y _ => distance_inj) _ _ (Nat.le_refl _) (fun _ hid => hid) hnodup
  exact ⟨hspec.1, List.pairwise_map.mpr hspec.2⟩

theorem mem_of_mem_newestWrapped {n : Nat} {l : IdList n} {id : UInt32}
    (h : id ∈ l.newestWrapped) : id ∈ l.ids := by
  have hfold : ∀ rest first, rest.foldl IdList.newer first ∈ first :: rest := by
    intro rest
    induction rest with
    | nil => simp
    | cons x rest ih =>
      intro first
      have hchoice : IdList.newer first x = first ∨ IdList.newer first x = x := by
        unfold IdList.newer
        split <;> simp
      have hmem := ih (IdList.newer first x)
      rcases hchoice with hfirst | hx
      · grind
      · grind
  cases hids : l.ids with
  | nil => simp [IdList.newestWrapped, hids] at h
  | cons first rest =>
    simp only [IdList.newestWrapped, hids, Option.mem_def, Option.some.injEq] at h
    exact h ▸ hfold rest first

theorem past_eq (id expected : UInt32) : id + 1 = offset expected (distanceWrapped id expected + 1) := by
  rw [← offset_succ, offset_distance]

theorem pastAll_spec {last newestLost : Option UInt32}
    (hlast : ∀ id ∈ last, 0 < distanceWrapped id expected)
    (hlost : ∀ id ∈ newestLost, 0 < distanceWrapped id expected) :
    ∃ a, 0 ≤ a ∧ a ≤ 2147483648 ∧ pastAll last newestLost (some expected) = some (offset expected a) ∧
      ∀ id ∈ last, distanceWrapped id expected < a := by
  -- past one id ahead of the expectation
  have hpast : ∀ id, 0 < distanceWrapped id expected → ∃ a, 0 ≤ a ∧ a ≤ 2147483648 ∧
      some (id + 1) = some (offset expected a) ∧ a = distanceWrapped id expected + 1 := by
    intro id hpos
    have hlt := distanceWrapped_lt id expected
    exact ⟨_, by omega, by omega, by rw [past_eq id expected], rfl⟩
  cases last with
  | none =>
    cases newestLost with
    | none => exact ⟨0, by decide, by decide, by simp [pastAll], by simp⟩
    | some lost =>
      obtain ⟨a, hge, hle, heq, -⟩ := hpast lost (hlost lost rfl)
      exact ⟨a, hge, hle, heq, by simp⟩
  | some last =>
    have hpos := hlast last rfl
    obtain ⟨a, hge, hle, heq, ha⟩ := hpast last hpos
    cases newestLost with
    | none => exact ⟨a, hge, hle, heq, by simp; omega⟩
    | some lost =>
      have hlostPos := hlost lost rfl
      obtain ⟨b, hbge, hble, hbeq, hb⟩ := hpast lost hlostPos
      have hcancel : lost + 1 - (last + 1) = lost - last := by
        grind
      have hcompare : distanceWrapped (lost + 1) (last + 1) =
          distanceWrapped lost expected - distanceWrapped last expected := by
        rw [← distance_ahead hlostPos hpos, distanceWrapped, hcancel, distanceWrapped]
      simp only [pastAll, hcompare]
      split
      · exact ⟨b, hbge, hble, hbeq, by simp; omega⟩
      · exact ⟨a, hge, hle, heq, by simp; omega⟩

theorem flushAll_spec (hexpected : s.nextExpected = some expected) (hnodup : s.held.ids.Nodup)
    (hahead : ∀ id ∈ s.held.ids, 0 < distanceWrapped id expected) :
    s.flushAll.1.held.ids = [] ∧ s.flushAll.1.lostAhead.ids = [] ∧
      s.flushAll.2.released.ids.Perm s.held.ids ∧ s.flushAll.2.dropped.ids = [] ∧
      (s.LossesAhead → Forward expected s.flushAll) := by
  obtain ⟨hperm, hsorted⟩ := sortWrapped_spec hnodup hahead
  have hreleased : s.flushAll.2.released.ids = s.held.sortWrapped := by
    have hfold := (IdList.new (n := heldCapacity)).ids_foldl_push s.held.sortWrapped
      (by simpa [IdList.new, hperm.length_eq] using s.held.fits)
    simpa [flushAll, IdList.new] using hfold
  refine ⟨rfl, rfl, hreleased ▸ hperm, rfl, fun hlosses => ?_⟩
  have hlosses : ∀ id ∈ s.lostAhead.ids, 0 < distanceWrapped id expected := fun id hid =>
    hlosses id hid expected hexpected
  have hlast : ∀ id ∈ s.held.sortWrapped.getLast?, 0 < distanceWrapped id expected := fun id hid =>
    hahead id (hperm.mem_iff.mp (List.mem_of_getLast? hid))
  have hlost : ∀ id ∈ s.lostAhead.newestWrapped, 0 < distanceWrapped id expected :=
    fun id hid => hlosses id (mem_of_mem_newestWrapped hid)
  obtain ⟨a, hge, hle, heq, hpast⟩ := pastAll_spec hlast hlost
  have hall : ahead expected s.held.sortWrapped =
      s.held.sortWrapped.map fun id => distanceWrapped id expected := by
    refine List.filter_eq_self.mpr fun d hd => ?_
    obtain ⟨id, hid, rfl⟩ := List.mem_map.mp hd
    exact decide_eq_true (Int.le_of_lt (hahead id (hperm.mem_iff.mp hid)))
  refine ⟨a, hge, hle, ?_, by rwa [hreleased, hall], fun d hd => ?_⟩
  · simp only [flushAll, hexpected] at hreleased ⊢
    rw [hreleased]
    exact heq
  rw [hreleased, hall] at hd
  -- the last one released is the farthest
  rcases List.eq_nil_or_concat' s.held.sortWrapped with hnil | ⟨init, last, hlastEq⟩
  · simp [hnil] at hd
  · have hend := hpast last (by simp [hlastEq])
    rw [hlastEq, List.map_append, List.map_singleton] at hsorted hd
    rcases List.mem_append.mp hd with hd | hd
    · have hbefore := (List.pairwise_append.mp hsorted).2.2 d hd _ (List.mem_singleton_self _)
      omega
    · rw [List.mem_singleton.mp hd]
      exact hend

/-! ### Each fold -/

theorem Bounded.ahead (h : s.Bounded) (hexpected : s.nextExpected = some expected) :
    ∀ id ∈ s.held.ids, 0 < distanceWrapped id expected ∧ distanceWrapped id expected ≤ s.maxGap := by
  intro id hid
  obtain ⟨expected', heq, hbounds⟩ := h.held_ahead id hid
  cases hexpected.symm.trans heq
  exact hbounds

theorem Keeps.stay (h : s.Bounded) (hperm : (step.released.ids ++ step.dropped.ids).Perm arrival)
    (hbehind : ∀ expected ∈ s.nextExpected, ∀ id ∈ step.released.ids, distanceWrapped id expected < 0) :
    s.Keeps arrival (s, step) where
  maxHeld := rfl
  maxGap := rfl
  bounded := h
  perm := hperm.append_right _
  forward _ expected hexpected := by
    have hnone : ahead expected step.released.ids = [] := by
      simp only [DecodeSequencer.ahead, List.filter_eq_nil_iff, List.mem_map, forall_exists_index,
        and_imp, forall_apply_eq_imp_iff₂, decide_eq_true_eq]
      intro id hid
      have := hbehind expected hexpected id hid
      omega
    exact ⟨0, by decide, by decide, by simpa using hexpected, by simp [hnone], by simp [hnone]⟩

theorem Keeps.advance (h : s.Bounded) (hexpected : s.nextExpected = some expected) {d : Int}
    (hd : 0 ≤ d) (hlt : d < 2147483648) {held : IdList heldCapacity} {lostAhead : IdList lostCapacity}
    (hheld : held.ids.Sublist s.held.ids) (hlost : lostAhead.ids.Sublist s.lostAhead.ids)
    (hpast : ∀ id ∈ held.ids, d < distanceWrapped id expected)
    (hreleased : step.released.ids = [] ∨ step.released.ids = [offset expected d])
    (hperm : (step.released.ids ++ step.dropped.ids ++ held.ids).Perm (arrival ++ s.held.ids)) :
    s.Keeps arrival (drainContiguous
      { s with held, lostAhead, nextExpected := some (offset expected (d + 1)) } step) := by
  have hlen := hheld.length_le
  have hvalve := s.maxHeld_le
  have hheldLe := h.held_le
  have hroom : step.released.ids.length + held.ids.length ≤ heldCapacity := by
    simp only [heldCapacity]
    rcases hreleased with hnil | hone
    · simp only [hnil, List.length_nil]; omega
    · simp only [hone, List.length_singleton]; omega
  obtain ⟨expected', out, held', lost', heq, hids, hdrain⟩ := @drainContiguous_drain
    { s with held, lostAhead, nextExpected := some (offset expected (d + 1)) } _ step rfl hroom
  rw [heq]
  obtain ⟨hsubHeld, hsubLost⟩ := hdrain.sublist
  have hcloser : ∀ id ∈ held.ids, 0 ≤ distanceWrapped id (offset expected (d + 1)) ∧
      distanceWrapped id (offset expected (d + 1)) ≤ s.maxGap := by
    intro id hid
    have hbounds := h.ahead hexpected id (hheld.subset hid)
    have hsub := distance_offset_offset expected (a := distanceWrapped id expected) (b := d + 1)
      (by omega) (by have := distanceWrapped_lt id expected; omega)
    rw [offset_distance] at hsub
    have := hpast id hid
    omega
  refine ⟨rfl, rfl, ⟨?_, fun id hid => ⟨expected', rfl, ?_⟩, ?_, ?_⟩, ?_, ?_⟩
  · exact (h.held_nodup.sublist hheld).sublist hsubHeld
  · exact hdrain.held_ahead (h.held_nodup.sublist hheld) hcloser id hid
  · exact Nat.le_trans hsubHeld.length_le (Nat.le_trans hlen hheldLe)
  · exact Nat.le_trans hsubLost.length_le (Nat.le_trans hlost.length_le h.lost_le)
  · refine List.Perm.trans ?_ hperm
    simp only [hids]
    have hout := hdrain.perm
    calc step.released.ids ++ out ++ step.dropped.ids ++ held'.ids
      _ |>.Perm (step.released.ids ++ (step.dropped.ids ++ (out ++ held'.ids))) := by
          simp only [List.append_assoc]
          exact (List.perm_append_comm_assoc ..).append_left _
      _ |>.Perm (step.released.ids ++ (step.dropped.ids ++ held.ids)) :=
          (hout.symm.append_left _).append_left _
      _ |>.Perm (step.released.ids ++ step.dropped.ids ++ held.ids) := by
          rw [List.append_assoc]
  · intro hlosses expected'' hexpected''
    cases hexpected.symm.trans hexpected''
    obtain ⟨a, hge, hle, hoffset, hpair, hout⟩ := hdrain.ascending (by omega) (by omega) (by
      rintro id (hid | hid)
      · have := hpast id hid
        omega
      · have := hlosses id (hlost.subset hid) expected hexpected
        omega)
    have hdist := distance_offset expected (a := d) (by omega) hlt
    have hall : ahead expected out = out.map fun id => distanceWrapped id expected := by
      refine List.filter_eq_self.mpr fun x hx => ?_
      obtain ⟨id, hid, rfl⟩ := List.mem_map.mp hx
      have := hout id hid
      simp only [decide_eq_true_eq]
      omega
    refine ⟨a, by omega, hle, congrArg some hoffset, ?_⟩
    have hsplit : ahead expected (step.released.ids ++ out) =
        ahead expected step.released.ids ++ out.map fun id => distanceWrapped id expected := by
      rw [← hall]
      simp [DecodeSequencer.ahead]
    simp only [hids, hsplit]
    have hbefore : ∀ x ∈ ahead expected step.released.ids, x = d := by
      rcases hreleased with hnil | hone
      · simp [hnil, DecodeSequencer.ahead]
      · simp [hone, DecodeSequencer.ahead, hdist, hd]
    have hfirst : (ahead expected step.released.ids).Pairwise (· < ·) := by
      rcases hreleased with hnil | hone
      · simp [hnil, DecodeSequencer.ahead]
      · simp [hone, DecodeSequencer.ahead, hdist, hd]
    constructor
    · refine List.pairwise_append.mpr ⟨hfirst, hpair, fun x hx y hy => ?_⟩
      obtain ⟨id, hid, rfl⟩ := List.mem_map.mp hy
      have := hbefore x hx
      have := hout id hid
      omega
    · intro x hx
      rcases List.mem_append.mp hx with hx | hx
      · have := hbefore x hx
        omega
      · obtain ⟨id, hid, rfl⟩ := List.mem_map.mp hx
        exact (hout id hid).2

theorem Keeps.flush (hexpected : s.nextExpected = some expected)
    {held : IdList heldCapacity} {lostAhead : IdList lostCapacity}
    (hperm : held.ids.Perm (arrival ++ s.held.ids)) (hnodup : held.ids.Nodup)
    (hheld : ∀ id ∈ held.ids, 0 < distanceWrapped id expected)
    (hlost : s.LossesAhead → ∀ id ∈ lostAhead.ids, 0 < distanceWrapped id expected) :
    s.Keeps arrival (flushAll { s with held, lostAhead }) := by
  obtain ⟨hnil, hlostNil, hreleased, hdropped, hforward⟩ :=
    flushAll_spec (s := { s with held, lostAhead }) hexpected hnodup hheld
  refine ⟨rfl, rfl, ⟨?_, ?_, ?_, ?_⟩, ?_, ?_⟩
  · simp [hnil]
  · simp [hnil]
  · simp [hnil]
  · simp [hlostNil]
  · simpa [hnil, hdropped] using hreleased.trans hperm
  · intro hlosses expected' hexpected'
    cases hexpected.symm.trans hexpected'
    refine hforward fun id hid expected' hexpected' => ?_
    cases hexpected.symm.trans hexpected'
    exact hlost hlosses id hid

theorem succ_eq (expected : UInt32) : expected + 1 = offset expected (0 + 1) := by
  simpa using offset_succ expected 0

theorem noteLost_keeps (h : s.Bounded) : s.Keeps [] (s.noteLost frameId) := by
  have hstay : s.Keeps [] (s, .empty) :=
    .stay h (by simp) (by simp)
  simp only [noteLost]
  split
  · exact hstay
  rename_i expected hexpected
  have hheld := h.ahead hexpected
  split
  · exact hstay
  split
  · exact .advance h hexpected (by decide) (by decide) (.refl _) (.refl _)
      (fun id hid => (hheld id hid).1) (.inl rfl) (by simp)
  have hlost : s.LossesAhead → ∀ id ∈ (s.lostAhead.insertSorted frameId).ids,
      0 < distanceWrapped id expected := by
    intro hlosses id hid
    rcases s.lostAhead.mem_of_mem_insertSorted hid with rfl | hid
    · omega
    · exact hlosses id hid expected hexpected
  split
  · have hperm : s.held.ids.Perm ([] ++ s.held.ids) := .refl _
    exact .flush hexpected hperm h.held_nodup (fun id hid => (hheld id hid).1) hlost
  · rename_i hfits
    refine ⟨rfl, rfl, ⟨h.held_nodup, h.held_ahead, h.held_le, ?_⟩, by simp, hstay.forward⟩
    exact Nat.le_trans (Nat.le_add_right ..) (Nat.not_lt.mp hfits)

theorem noteCompleted_keeps (h : s.Bounded) {keyframe : Bool} (hnew : frameId ∉ s.held.ids) :
    s.Keeps [frameId] (s.noteCompleted frameId keyframe) := by
  simp only [noteCompleted]
  split
  · -- the first frame anchors the expectation
    rename_i hexpected
    have hnone : s.held.ids = [] := by
      refine List.eq_nil_iff_forall_not_mem.mpr fun id hid => ?_
      obtain ⟨expected, hsome, -⟩ := h.held_ahead id hid
      simp [hexpected] at hsome
    refine ⟨rfl, rfl, ⟨h.held_nodup, by simp [hnone], h.held_le, h.lost_le⟩, ?_, ?_⟩
    · simp
    · simp [hexpected]
  rename_i expected hexpected
  have hheld := h.ahead hexpected
  have hlt := distanceWrapped_lt frameId expected
  have hlate : distanceWrapped frameId expected < 0 → s.Keeps [frameId] (s, .only frameId) := by
    intro hneg
    refine .stay h (by simp) ?_
    simpa [hexpected] using hneg
  split
  · split
    · rename_i hge
      have hkept : ∀ id ∈ s.held.ids, distanceWrapped id frameId =
          distanceWrapped id expected - distanceWrapped frameId expected := by
        intro id hid
        have hpos := (hheld id hid).1
        have := distanceWrapped_lt id expected
        exact distance_sub expected (by omega) (by omega)
      have hobsolete : ((s.held.ids.filter fun id => distanceWrapped id frameId ≤ 0).foldl
          IdList.push (SequencerStep.only frameId).dropped).ids =
            s.held.ids.filter fun id => distanceWrapped id frameId ≤ 0 := by
        have hroom := Nat.le_trans
          (s.held.ids.length_filter_le fun id => distanceWrapped id frameId ≤ 0) s.held.fits
        simpa using (SequencerStep.only frameId).dropped.ids_foldl_push _ (by simpa using hroom)
      have hsplit := List.filter_append_perm (fun id => decide (distanceWrapped id frameId ≤ 0))
        s.held.ids
      rw [past_eq frameId expected]
      refine .advance h hexpected hge hlt List.filter_sublist List.filter_sublist (fun id hid => ?_)
        (.inr (by simp)) ?_
      · obtain ⟨hmem, hlater⟩ := List.mem_filter.mp hid
        have := hkept id hmem
        simp only [decide_eq_true_eq] at hlater
        omega
      · simpa [hobsolete, IdList.retain, ← decide_not] using hsplit
    · exact hlate (by omega)
  split
  · exact hlate ‹_›
  split
  · rename_i hzero
    have hid : frameId = expected := distanceWrapped_eq_zero.mp hzero
    rw [succ_eq, hid]
    exact .advance h hexpected (by decide) (by decide) (.refl _) (.refl _)
      (fun id hid => (hheld id hid).1) (.inr (by simp))
      (by simp)
  have hvalve := s.maxHeld_le
  have hperm := s.held.perm_insertSorted hnew (by have := h.held_le; simp only [heldCapacity]; omega)
  have hnodup := hperm.nodup_iff.mpr (List.nodup_cons.mpr ⟨hnew, h.held_nodup⟩)
  have hpos : ∀ id ∈ (s.held.insertSorted frameId).ids, 0 < distanceWrapped id expected := by
    grind
  split
  · exact .flush hexpected hperm hnodup hpos
      fun hlosses id hid => hlosses id hid expected hexpected
  · rename_i hfits
    simp only [not_or, Nat.not_lt, Int.not_lt] at hfits
    refine ⟨rfl, rfl, ⟨hnodup, fun id hid => ⟨expected, hexpected, hpos id hid, ?_⟩, hfits.1,
      h.lost_le⟩, hperm, ?_⟩
    · grind
    · intro _ expected' hexpected'
      exact ⟨0, by decide, by decide, by simpa using hexpected', by simp [DecodeSequencer.ahead],
        by simp [DecodeSequencer.ahead]⟩

theorem drainLoop_step (fuel : Nat) (s : DecodeSequencer) (expected : UInt32) (step : SequencerStep) :
    (drainLoop fuel s expected step).2.dropped = step.dropped ∧
      step.released.ids ⊆ (drainLoop fuel s expected step).2.released.ids := by
  induction fuel generalizing s expected step with
  | zero => simp [drainLoop]
  | succ fuel ih =>
    simp only [drainLoop]
    split
    · obtain ⟨hdropped, hreleased⟩ := ih _ _ _
      exact ⟨hdropped, fun id hid => hreleased (step.released.mem_push hid)⟩
    split
    · exact ih _ _ _
    · exact ⟨rfl, fun _ hid => hid⟩

theorem drainContiguous_step (s : DecodeSequencer) (step : SequencerStep) :
    (s.drainContiguous step).2.dropped = step.dropped ∧
      step.released.ids ⊆ (s.drainContiguous step).2.released.ids := by
  simp only [drainContiguous]
  split
  · exact ⟨rfl, fun _ hid => hid⟩
  · exact drainLoop_step ..

theorem noteCompleted_dropped (hnew : frameId ∉ s.held.ids) {keyframe : Bool} :
    ∀ id ∈ (s.noteCompleted frameId keyframe).2.dropped.ids,
      keyframe ∧ frameId ∈ (s.noteCompleted frameId keyframe).2.released.ids ∧
        distanceWrapped id frameId < 0 := by
  intro id
  simp only [noteCompleted]
  split
  · simp
  split
  · rename_i hkeyframe
    split
    · intro hid
      obtain ⟨hdropped, hreleased⟩ := drainContiguous_step _ _
      rw [hdropped] at hid
      obtain ⟨hmem, hle⟩ := List.mem_filter.mp ((IdList.mem_foldl_push hid).resolve_left (by simp))
      have hne : distanceWrapped id frameId ≠ 0 := by
        rw [Ne, distanceWrapped_eq_zero]
        rintro rfl
        exact hnew hmem
      simp only [decide_eq_true_eq] at hle
      exact ⟨hkeyframe, hreleased (by simp), by omega⟩
    · simp
  split
  · simp
  split
  · simp [(drainContiguous_step _ _).1]
  split
  · simp [flushAll, IdList.new]
  · simp

theorem noteLost_dropped : (s.noteLost frameId).2.dropped.ids = [] := by
  simp only [noteLost]
  split
  · simp
  split
  · simp
  split
  · simp [(drainContiguous_step _ _).1]
  split
  · simp [flushAll, IdList.new]
  · simp

end Folds

/-! ## §4 Runs -/

/-- A note to the sequencer. -/
inductive Note where
  | completed (frameId : UInt32) (keyframe : Bool)
  | lost (frameId : UInt32)
  deriving DecidableEq

namespace Note

/-- The id it is about. -/
def frameId : Note → UInt32
  | completed frameId _ => frameId
  | lost frameId => frameId

/-- The id it completes, if it does. -/
def arrival : Note → List UInt32
  | completed frameId _ => [frameId]
  | lost _ => []

end Note

/-- One note folded. -/
def fold (s : DecodeSequencer) : Note → DecodeSequencer × SequencerStep
  | .completed frameId keyframe => s.noteCompleted frameId keyframe
  | .lost frameId => s.noteLost frameId

theorem fold_keeps {s : DecodeSequencer} (h : s.Bounded) {note : Note} (hnew : ∀ id ∈ note.arrival, id ∉ s.held.ids) :
    s.Keeps note.arrival (s.fold note) := by
  cases note with
  | completed frameId keyframe => exact noteCompleted_keeps h (hnew frameId (List.mem_singleton_self _))
  | lost frameId => exact noteLost_keeps h

theorem fold_dropped {s : DecodeSequencer} {note : Note} (hnew : ∀ id ∈ note.arrival, id ∉ s.held.ids) :
    ∀ id ∈ (s.fold note).2.dropped.ids, ∃ key ∈ (s.fold note).2.released.ids,
      note = .completed key true ∧ distanceWrapped id key < 0 := by
  intro id hid
  cases note with
  | completed frameId keyframe =>
    obtain ⟨rfl, hreleased, hbehind⟩ :=
      noteCompleted_dropped (hnew frameId (List.mem_singleton_self _)) id hid
    exact ⟨frameId, hreleased, rfl, hbehind⟩
  | lost frameId =>
    have hnone : (s.fold (.lost frameId)).2.dropped.ids = [] := noteLost_dropped
    simp [hnone] at hid

/-- A sequencer beside a ledger of its run: what was released and dropped,
how far into the stream the expectation stands, and at which places of the
stream the ids stood that were released at or after it. -/
structure Decoding where
  sequencer : DecodeSequencer
  released : List UInt32
  dropped : List UInt32
  place : Int
  order : List Int

namespace Decoding

/-- Before the first frame. -/
def new (maxHeld : Nat) (maxGap : Int) : Decoding := ⟨.new maxHeld maxGap, [], [], 0, []⟩

/-- Where an expectation moved to, counted without wrapping. -/
def moved (place : Int) : Option UInt32 → Option UInt32 → Int
  | some expected, some expected' => place + (distanceWrapped (expected' - 1) expected + 1)
  | none, some _ => place + 1
  | _, none => place

/-- The places of what a fold released at or after the expectation. -/
def places (place : Int) (ids : List UInt32) : Option UInt32 → List Int
  | some expected => (ahead expected ids).map (place + ·)
  | none => ids.map fun _ => place

/-- One note, in the sequencer and in the ledger. -/
def note (t : Decoding) (n : Note) : Decoding where
  sequencer := (t.sequencer.fold n).1
  released := t.released ++ (t.sequencer.fold n).2.released.ids
  dropped := t.dropped ++ (t.sequencer.fold n).2.dropped.ids
  place := moved t.place t.sequencer.nextExpected (t.sequencer.fold n).1.nextExpected
  order := t.order ++ places t.place (t.sequencer.fold n).2.released.ids t.sequencer.nextExpected

/-- After the notes `notes`. -/
structure Kept (maxHeld : Nat) (maxGap : Int) (notes : List Note) (t : Decoding) : Prop where
  maxHeld : t.sequencer.maxHeld = clampValveCount maxHeld
  maxGap : t.sequencer.maxGap = clampValveSpan maxGap
  bounded : t.sequencer.Bounded
  perm : (t.released ++ t.dropped ++ t.sequencer.held.ids).Perm (notes.flatMap Note.arrival)
  dropped : ∀ id ∈ t.dropped, ∃ key ∈ t.released, Note.completed key true ∈ notes ∧
    distanceWrapped id key < 0

/-- A place for the next id, past all before it. -/
structure Ordered (t : Decoding) : Prop where
  ascending : t.order.Pairwise (· < ·)
  before : ∀ place ∈ t.order, place < t.place

theorem Kept.note {maxHeld : Nat} {maxGap : Int} {notes : List Note} {t : Decoding} {n : Note}
    (h : t.Kept maxHeld maxGap notes) (hnew : ∀ id ∈ n.arrival, id ∉ notes.flatMap Note.arrival) :
    (t.note n).Kept maxHeld maxGap (notes ++ [n]) := by
  have hfresh : ∀ id ∈ n.arrival, id ∉ t.sequencer.held.ids := fun id hid hmem =>
    hnew id hid (h.perm.subset (List.mem_append_right _ hmem))
  have hkeeps := fold_keeps h.bounded hfresh
  refine ⟨hkeeps.maxHeld.trans h.maxHeld, hkeeps.maxGap.trans h.maxGap, hkeeps.bounded, ?_, ?_⟩
  · refine List.perm_iff_count.mpr fun id => ?_
    have hbefore := h.perm.count_eq id
    have hfold := hkeeps.perm.count_eq id
    simp only [List.count_append, List.flatMap_append, List.flatMap_singleton, Decoding.note]
      at hbefore hfold ⊢
    omega
  · intro id hid
    rcases List.mem_append.mp hid with hid | hid
    · obtain ⟨key, hkey, hmem, hbehind⟩ := h.dropped id hid
      exact ⟨key, List.mem_append_left _ hkey, List.mem_append_left _ hmem, hbehind⟩
    · obtain ⟨key, hkey, rfl, hbehind⟩ := fold_dropped hfresh id hid
      exact ⟨key, List.mem_append_right _ hkey, by simp, hbehind⟩

theorem moved_offset (place : Int) (expected : UInt32) {a : Int} (ha : 0 ≤ a) (hle : a ≤ 2147483648) :
    moved place (some expected) (some (offset expected a)) = place + a := by
  have hpred : offset expected a - 1 = offset expected (a - 1) := by
    have hsucc := offset_succ expected (a - 1)
    rw [Int.sub_add_cancel] at hsucc
    rw [← hsucc, UInt32.add_sub_cancel]
  have hdist := distance_offset expected (a := a - 1) (by omega) (by omega)
  simp only [moved, hpred, hdist]
  omega

theorem Ordered.note {t : Decoding} {n : Note} (h : t.Ordered) (hbounded : t.sequencer.Bounded)
    (hfresh : ∀ id ∈ n.arrival, id ∉ t.sequencer.held.ids) (hlosses : t.sequencer.LossesAhead) :
    (t.note n).Ordered := by
  cases hexpected : t.sequencer.nextExpected with
  | none =>
    cases n with
    | completed frameId keyframe =>
      have hplace : (t.note (.completed frameId keyframe)).place = t.place + 1 := by
        simp [Decoding.note, fold, noteCompleted, hexpected, moved]
      have horder : (t.note (.completed frameId keyframe)).order = t.order ++ [t.place] := by
        simp [Decoding.note, fold, noteCompleted, hexpected, places]
      refine ⟨?_, fun place hmem => ?_⟩
      · rw [horder]
        exact List.pairwise_append.mpr ⟨h.ascending, by simp, by simpa using h.before⟩
      · rw [horder] at hmem
        rcases List.mem_append.mp hmem with hmem | hmem
        · have := h.before place hmem
          omega
        · rw [List.mem_singleton.mp hmem]
          omega
    | lost frameId =>
      have hsame : t.note (.lost frameId) = t := by
        simp [Decoding.note, fold, noteLost, hexpected, places, moved]
      rwa [hsame]
  | some expected =>
    obtain ⟨a, ha, hle, hnext, hpair, hbelow⟩ :=
      (fold_keeps hbounded hfresh).forward hlosses expected hexpected
    have hplace : (t.note n).place = t.place + a := by
      simp only [Decoding.note, hexpected, hnext, moved_offset _ _ ha hle]
    have horder : (t.note n).order =
        t.order ++ (ahead expected (t.sequencer.fold n).2.released.ids).map (t.place + ·) := by
      simp only [Decoding.note, hexpected, places]
    refine ⟨?_, fun place hmem => ?_⟩
    · rw [horder]
      refine List.pairwise_append.mpr ⟨h.ascending, ?_, fun x hx y hy => ?_⟩
      · exact hpair.map _ fun x y hlt => by omega
      · obtain ⟨d, hd, rfl⟩ := List.mem_map.mp hy
        have hnonneg := (List.mem_filter.mp hd).2
        have := h.before x hx
        simp only [decide_eq_true_eq] at hnonneg
        omega
    · rw [horder] at hmem
      rcases List.mem_append.mp hmem with hmem | hmem
      · have := h.before place hmem
        omega
      · grind

theorem kept_run (maxHeld : Nat) (maxGap : Int) {notes : List Note}
    (honce : (notes.flatMap Note.arrival).Nodup) :
    (run note (new maxHeld maxGap) notes).Kept maxHeld maxGap notes ∧
      (Meets note (fun t _ => t.sequencer.LossesAhead) (new maxHeld maxGap) notes →
        (run note (new maxHeld maxGap) notes).Ordered) := by
  induction notes using List.reverseRecOn with
  | nil =>
    exact ⟨⟨rfl, rfl, .of_new maxHeld maxGap, by simp [new, DecodeSequencer.new, IdList.new], by simp [new]⟩,
      fun _ => ⟨by simp [new], by simp [new]⟩⟩
  | append_singleton notes n ih =>
    rw [List.flatMap_append, List.flatMap_singleton] at honce
    obtain ⟨hbefore, -, hdisjoint⟩ := List.nodup_append.mp honce
    obtain ⟨hkept, hordered⟩ := ih hbefore
    have hnew : ∀ id ∈ n.arrival, id ∉ notes.flatMap Note.arrival := fun id hid hmem =>
      hdisjoint id hmem id hid rfl
    have hfresh : ∀ id ∈ n.arrival,
        id ∉ (run note (new maxHeld maxGap) notes).sequencer.held.ids := fun id hid hmem =>
      hnew id hid (hkept.perm.subset (List.mem_append_right _ hmem))
    rw [run_append, run_cons, run_nil]
    refine ⟨hkept.note hnew, fun hmeets => ?_⟩
    obtain ⟨hmeets, hlosses, -⟩ := meets_append.mp hmeets
    exact (hordered hmeets).note hkept.bounded hfresh hlosses

/-- Decode order. Held ids stay within the valves, and every completed id
is at each moment released once, dropped behind a released keyframe, or
held; while no note finds a declared loss behind the expectation, the ids
released at or after it come in stream order. -/
theorem decode_order (maxHeld : Nat) (maxGap : Int) (notes : List Note)
    (honce : (notes.flatMap Note.arrival).Nodup) :
    let t := run note (new maxHeld maxGap) notes
    (∀ id ∈ t.sequencer.held.ids, ∃ expected, t.sequencer.nextExpected = some expected ∧
        0 < distanceWrapped id expected ∧ distanceWrapped id expected ≤ t.sequencer.maxGap) ∧
      t.sequencer.held.ids.length ≤ t.sequencer.maxHeld ∧
      t.sequencer.maxGap = clampValveSpan maxGap ∧ t.sequencer.maxHeld = clampValveCount maxHeld ∧
      (t.released ++ t.dropped ++ t.sequencer.held.ids).Perm (notes.flatMap Note.arrival) ∧
      (t.released ++ t.dropped ++ t.sequencer.held.ids).Nodup ∧
      (∀ id ∈ t.dropped, ∃ key ∈ t.released, Note.completed key true ∈ notes ∧
        distanceWrapped id key < 0) ∧
      (Meets note (fun t _ => t.sequencer.LossesAhead) (new maxHeld maxGap) notes →
        t.order.Pairwise (· < ·)) := by
  obtain ⟨hkept, hordered⟩ := kept_run maxHeld maxGap honce
  exact ⟨hkept.bounded.held_ahead, hkept.bounded.held_le, hkept.maxGap, hkept.maxHeld, hkept.perm,
    hkept.perm.nodup_iff.mpr honce, hkept.dropped, fun hmeets => (hordered hmeets).ascending⟩

/-- One run with a loss, a hold and a keyframe. -/
theorem decode_order_keyframe :
    let notes := [Note.completed 7 true, .completed 9 false, .lost 8, .completed 12 false,
      .completed 13 true, .completed 11 false]
    (notes.flatMap Note.arrival).Nodup ∧
      Meets note (fun t _ => t.sequencer.LossesAhead) (new 12 8) notes ∧
      (run note (new 12 8) notes).order.Pairwise (· < ·) := by
  intro notes
  have honce : (notes.flatMap Note.arrival).Nodup := by decide
  have hmeets : Meets note (fun t _ => t.sequencer.LossesAhead) (new 12 8) notes := by
    decide +kernel
  exact ⟨honce, hmeets, (decode_order 12 8 notes honce).2.2.2.2.2.2.2 hmeets⟩

/-- A loss declared of a held id stays behind when the id is released. Half
the id space later the valve takes it for the newest loss, the expectation
goes back to it, and a late completion comes out after its successors. -/
theorem stale_loss_reorders :
    let notes := [Note.completed 0 false, .completed 2 false, .lost 2, .lost 1] ++
      ([3, 4, 5, 6, 7, 8, 9].map fun id => Note.completed id false) ++ [.lost 10] ++
      ([11, 12, 13, 14, 15, 16, 17, 18, 19].map fun id => Note.completed id false) ++
      [.lost 2147483662, .lost 2147483663, .completed 10 false]
    (notes.flatMap Note.arrival).Nodup ∧
      Meets note (fun t n => ∀ expected ∈ t.sequencer.nextExpected,
        -2147483648 < distanceWrapped n.frameId expected) (new 1 1) notes ∧
      ¬ (run note (new 1 1) notes).order.Pairwise (· < ·) := by
  exact ⟨by decide +kernel,
    meets_of_decide (fun t _ => t.sequencer.nextExpected.decidableForallMem) (by decide +kernel),
    by decide +kernel⟩

end Decoding

end DecodeSequencer

end SlopDesk.Video
