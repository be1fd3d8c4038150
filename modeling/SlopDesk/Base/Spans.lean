/-
SlopDesk.Base.Spans — the spans of a list of events.

Some events open a span and some close one; what opens while a span is open
opens none, and what closes while none is open closes none. `IsSpan` and
`IsOpen` say what a span is by where its two ends stand; `spans` and
`openSpan` find them in one reading from the left.
-/
import Mathlib.Data.List.Induction

namespace SlopDesk.Base

variable {α : Type u}

/-- What stands in front of the event that opens a span, and what stands
inside it. -/
structure Span (α : Type u) where
  before : List α
  inside : List α
  deriving DecidableEq

section

variable (opens closes : α → Bool)

/-- No span is open: behind everything that opens one something closes. -/
def Shut (events : List α) : Prop :=
  ∀ pre a post, events = pre ++ a :: post → opens a → ∃ c ∈ post, closes c

/-- A span with both its ends. -/
def IsSpan (events : List α) (span : Span α) : Prop :=
  Shut opens closes span.before ∧ (∀ a ∈ span.inside, ¬ closes a) ∧
    ∃ opener closer after, opens opener ∧ closes closer ∧
      events = span.before ++ opener :: (span.inside ++ closer :: after)

/-- A span that nothing has closed. -/
def IsOpen (events : List α) (span : Span α) : Prop :=
  Shut opens closes span.before ∧ (∀ a ∈ span.inside, ¬ closes a) ∧
    ∃ opener, opens opener ∧ events = span.before ++ opener :: span.inside

/-- A reading of events from the left: all it read, the span it is in and
the ones it left. -/
structure SpanScan (α : Type u) where
  read : List α
  since : Option (Span α)
  closed : List (Span α)

def SpanScan.next (scan : SpanScan α) (a : α) : SpanScan α :=
  match scan.since with
  | none => ⟨scan.read ++ [a], if opens a then some ⟨scan.read, []⟩ else none, scan.closed⟩
  | some span =>
    if closes a then ⟨scan.read ++ [a], none, scan.closed ++ [span]⟩
    else ⟨scan.read ++ [a], some ⟨span.before, span.inside ++ [a]⟩, scan.closed⟩

def spanScan (events : List α) : SpanScan α := events.foldl (SpanScan.next opens closes) ⟨[], none, []⟩

/-- The spans with both ends, in order. -/
def spans (events : List α) : List (Span α) := (spanScan opens closes events).closed

/-- The span that nothing has closed. -/
def openSpan (events : List α) : Option (Span α) := (spanScan opens closes events).since

@[simp] theorem spans_nil : spans opens closes ([] : List α) = [] := rfl

@[simp] theorem openSpan_nil : openSpan opens closes ([] : List α) = none := rfl

theorem spanScan_append_singleton (events : List α) (a : α) :
    spanScan opens closes (events ++ [a]) = (spanScan opens closes events).next opens closes a := by
  simp [spanScan]

@[simp] theorem spanScan_read (events : List α) : (spanScan opens closes events).read = events := by
  induction events using List.reverseRecOn with
  | nil => rfl
  | append_singleton events a ih =>
    rw [spanScan_append_singleton, SpanScan.next]
    split
    · simp [ih]
    · split <;> simp [ih]

variable {opens closes}
variable {a : α} {events : List α} {span : Span α}

theorem openSpan_opens (h : openSpan opens closes events = none) (ha : opens a) :
    openSpan opens closes (events ++ [a]) = some ⟨events, []⟩ := by
  have hsince : (spanScan opens closes events).since = none := h
  simp [openSpan, spanScan_append_singleton, SpanScan.next, hsince, ha]

theorem openSpan_idle (h : openSpan opens closes events = none) (ha : ¬ opens a) :
    openSpan opens closes (events ++ [a]) = none := by
  have hsince : (spanScan opens closes events).since = none := h
  simp [openSpan, spanScan_append_singleton, SpanScan.next, hsince, ha]

theorem openSpan_closes (h : openSpan opens closes events = some span)
    (ha : closes a) : openSpan opens closes (events ++ [a]) = none := by
  have hsince : (spanScan opens closes events).since = some span := h
  simp [openSpan, spanScan_append_singleton, SpanScan.next, hsince, ha]

theorem openSpan_goesOn (h : openSpan opens closes events = some span)
    (ha : ¬ closes a) : openSpan opens closes (events ++ [a]) = some ⟨span.before, span.inside ++ [a]⟩ := by
  have hsince : (spanScan opens closes events).since = some span := h
  simp [openSpan, spanScan_append_singleton, SpanScan.next, hsince, ha]

theorem spans_idle (h : openSpan opens closes events = none) (a : α) :
    spans opens closes (events ++ [a]) = spans opens closes events := by
  have hsince : (spanScan opens closes events).since = none := h
  simp [spans, spanScan_append_singleton, SpanScan.next, hsince]

theorem spans_closes (h : openSpan opens closes events = some span)
    (ha : closes a) : spans opens closes (events ++ [a]) = spans opens closes events ++ [span] := by
  have hsince : (spanScan opens closes events).since = some span := h
  simp [spans, spanScan_append_singleton, SpanScan.next, hsince, ha]

theorem spans_goesOn (h : openSpan opens closes events = some span)
    (ha : ¬ closes a) : spans opens closes (events ++ [a]) = spans opens closes events := by
  have hsince : (spanScan opens closes events).since = some span := h
  simp [spans, spanScan_append_singleton, SpanScan.next, hsince, ha]

/-! ## What the reading finds -/

theorem shut_nil : Shut opens closes ([] : List α) := by
  intro pre a post h
  simp at h

theorem cut_append_singleton {pre post : List α} {b : α} (h : events ++ [a] = pre ++ b :: post) :
    (post = [] ∧ pre = events ∧ b = a) ∨ ∃ rest, post = rest ++ [a] ∧ events = pre ++ b :: rest := by
  rcases List.eq_nil_or_concat post with rfl | ⟨rest, last, rfl⟩
  · obtain ⟨rfl, hlast⟩ := List.append_inj' h rfl
    exact .inl ⟨rfl, rfl, (List.cons.inj hlast).1.symm⟩
  · rw [List.concat_eq_append, ← List.cons_append, ← List.append_assoc] at h
    obtain ⟨rfl, hlast⟩ := List.append_inj' h rfl
    exact .inr ⟨rest, by simp [(List.cons.inj hlast).1], rfl⟩

theorem shut_append_singleton (hdisjoint : ∀ a, opens a → ¬ closes a) (events : List α) (a : α) :
    Shut opens closes (events ++ [a]) ↔ closes a ∨ (Shut opens closes events ∧ ¬ opens a) := by
  constructor
  · intro h
    by_cases ha : closes a
    · exact .inl ha
    · refine .inr ⟨fun pre b post hcut hb => ?_, fun hopens => ?_⟩
      · obtain ⟨c, hc, hcloses⟩ := h pre b (post ++ [a]) (by simp [hcut]) hb
        rcases List.mem_append.mp hc with hc | hc
        · exact ⟨c, hc, hcloses⟩
        · grind
      · obtain ⟨c, hc, -⟩ := h events a [] rfl hopens
        simp at hc
  · intro h pre b post hcut hb
    rcases cut_append_singleton hcut with ⟨rfl, rfl, rfl⟩ | ⟨rest, rfl, rfl⟩
    · grind
    · rcases h with ha | ⟨hshut, -⟩
      · exact ⟨a, by simp, ha⟩
      · obtain ⟨c, hc, hcloses⟩ := hshut pre b rest rfl hb
        exact ⟨c, List.mem_append_left _ hc, hcloses⟩

theorem isSpan_append_singleton (events : List α) (a : α) (span : Span α) :
    IsSpan opens closes (events ++ [a]) span ↔
      IsSpan opens closes events span ∨ (closes a ∧ IsOpen opens closes events span) := by
  constructor
  · rintro ⟨hshut, hinside, opener, closer, after, hopens, hcloses, hcut⟩
    rw [← List.cons_append, ← List.append_assoc] at hcut
    rcases cut_append_singleton hcut with ⟨-, rfl, rfl⟩ | ⟨rest, rfl, rfl⟩
    · exact .inr ⟨hcloses, hshut, hinside, opener, hopens, rfl⟩
    · exact .inl ⟨hshut, hinside, opener, closer, rest, hopens, hcloses, by simp⟩
  · rintro (⟨hshut, hinside, opener, closer, after, hopens, hcloses, rfl⟩ |
      ⟨ha, hshut, hinside, opener, hopens, rfl⟩)
    · exact ⟨hshut, hinside, opener, closer, after ++ [a], hopens, hcloses, by simp⟩
    · exact ⟨hshut, hinside, opener, a, [], hopens, ha, by simp⟩

theorem isOpen_append_singleton (events : List α) (a : α) (span : Span α) :
    IsOpen opens closes (events ++ [a]) span ↔
      (opens a ∧ Shut opens closes events ∧ span = ⟨events, []⟩) ∨
        (¬ closes a ∧ ∃ old, IsOpen opens closes events old ∧ span = ⟨old.before, old.inside ++ [a]⟩) := by
  constructor
  · obtain ⟨before, inside⟩ := span
    rintro ⟨hshut, hinside, opener, hopens, hcut⟩
    rcases cut_append_singleton hcut with ⟨rfl, rfl, rfl⟩ | ⟨rest, rfl, rfl⟩
    · exact .inl ⟨hopens, hshut, rfl⟩
    · exact .inr ⟨hinside a (by simp), ⟨before, rest⟩,
        ⟨hshut, fun b hb => hinside b (List.mem_append_left _ hb), opener, hopens, rfl⟩, rfl⟩
  · rintro (⟨ha, hshut, rfl⟩ | ⟨ha, old, ⟨hshut, hinside, opener, hopens, rfl⟩, rfl⟩)
    · exact ⟨hshut, by simp, a, ha, rfl⟩
    · refine ⟨hshut, ?_, opener, hopens, by simp⟩
      intro b hb
      rcases List.mem_append.mp hb with hb | hb
      · exact hinside b hb
      · exact List.mem_singleton.mp hb ▸ ha

theorem not_shut_of_isOpen (h : IsOpen opens closes events span) : ¬ Shut opens closes events := by
  obtain ⟨-, hinside, opener, hopens, rfl⟩ := h
  intro hshut
  obtain ⟨c, hc, hcloses⟩ := hshut span.before opener span.inside rfl hopens
  exact hinside c hc hcloses

theorem openSpan_iff (hdisjoint : ∀ a, opens a → ¬ closes a) (events : List α) :
    (openSpan opens closes events = none ↔ Shut opens closes events) ∧
      ∀ span, openSpan opens closes events = some span ↔ IsOpen opens closes events span := by
  induction events using List.reverseRecOn with
  | nil => exact ⟨by simp [shut_nil], by simp [IsOpen]⟩
  | append_singleton events a ih =>
    obtain ⟨hnone, hsome⟩ := ih
    cases hopen : openSpan opens closes events with
    | none =>
      have hshut := hnone.mp hopen
      have hno (span : Span α) : ¬ IsOpen opens closes events span := fun h => not_shut_of_isOpen h hshut
      by_cases ha : opens a
      · have hcloses := hdisjoint a ha
        simp [openSpan_opens hopen ha, shut_append_singleton hdisjoint, isOpen_append_singleton, hcloses, ha,
          hshut, hno, eq_comm]
      · simp [openSpan_idle hopen ha, shut_append_singleton hdisjoint, isOpen_append_singleton, ha, hshut, hno]
    | some span =>
      have hisOpen := (hsome span).mp hopen
      have hshut := not_shut_of_isOpen hisOpen
      have hold (old : Span α) : IsOpen opens closes events old ↔ old = span := by
        rw [← hsome, hopen, Option.some_inj, eq_comm]
      by_cases ha : closes a
      · have hopens : ¬ opens a := fun h => hdisjoint a h ha
        simp [openSpan_closes hopen ha, shut_append_singleton hdisjoint, isOpen_append_singleton, ha, hopens]
      · rw [openSpan_goesOn hopen ha]
        constructor
        · simp [shut_append_singleton hdisjoint, ha, hshut]
        · intro span'
          rw [isOpen_append_singleton, Option.some_inj, eq_comm]
          simp [ha, hshut, hold]

theorem mem_spans_iff (hdisjoint : ∀ a, opens a → ¬ closes a) (events : List α) (span : Span α) :
    span ∈ spans opens closes events ↔ IsSpan opens closes events span := by
  induction events using List.reverseRecOn with
  | nil => simp [IsSpan]
  | append_singleton events a ih =>
    rw [isSpan_append_singleton, ← ih, ← (openSpan_iff hdisjoint events).2]
    cases hopen : openSpan opens closes events with
    | none => simp [spans_idle hopen]
    | some old =>
      by_cases ha : closes a
      · simp [spans_closes hopen ha, ha, eq_comm]
      · simp [spans_goesOn hopen ha, ha]

/-- A reading of what some of the events stand for finds a span open when
the reading of the events does. -/
theorem openSpan_filterMap {β : Type v} (f : β → Option α) (events : List β) :
    (openSpan (fun b => (f b).any opens) (fun b => (f b).any closes) events).isSome =
      (openSpan opens closes (events.filterMap f)).isSome := by
  induction events using List.reverseRecOn with
  | nil => rfl
  | append_singleton events b ih =>
    rw [List.filterMap_append]
    cases hf : f b with
    | none =>
      have hnone : ¬ (f b).any opens ∧ ¬ (f b).any closes := by simp [hf]
      rw [show [b].filterMap f = [] by simp [hf], List.append_nil, ← ih]
      cases hopen : openSpan (fun b => (f b).any opens) (fun b => (f b).any closes) events with
      | none => rw [openSpan_idle hopen hnone.1]
      | some span => rw [openSpan_goesOn hopen hnone.2]; rfl
    | some a =>
      have hany (p : α → Bool) : (f b).any p = p a := by simp [hf]
      rw [show [b].filterMap f = [a] by simp [hf]]
      cases hopen : openSpan (fun b => (f b).any opens) (fun b => (f b).any closes) events with
      | none =>
        rw [hopen] at ih
        have hopen' : openSpan opens closes (events.filterMap f) = none := by simpa using ih.symm
        by_cases ha : opens a
        · grind [openSpan_opens]
        · grind [openSpan_idle]
      | some span =>
        rw [hopen] at ih
        obtain ⟨span', hopen'⟩ := Option.isSome_iff_exists.mp ih.symm
        by_cases ha : closes a
        · grind [openSpan_closes]
        · rw [openSpan_goesOn hopen (fun h => ha ((hany closes).symm.trans h)), openSpan_goesOn hopen' ha]
          rfl

/-- Behind a span's end. -/
def Span.ended (span : Span α) : Nat := span.before.length + span.inside.length + 2

theorem spans_ordered (events : List α) :
    (spans opens closes events).Pairwise (fun span next => span.ended ≤ next.before.length) ∧
      (∀ span ∈ spans opens closes events, span.ended ≤ events.length ∧
        ∀ next, openSpan opens closes events = some next → span.ended ≤ next.before.length) ∧
      ∀ next, openSpan opens closes events = some next → next.before.length + next.inside.length + 1 = events.length := by
  induction events using List.reverseRecOn with
  | nil => simp
  | append_singleton events a ih =>
    obtain ⟨hordered, hclosed, hsince⟩ := ih
    have hlength : (events ++ [a]).length = events.length + 1 := by simp
    cases hopen : openSpan opens closes events with
    | none =>
      have hended (span : Span α) (hspan : span ∈ spans opens closes events) := (hclosed span hspan).1
      by_cases ha : opens a
      · grind [openSpan_opens, spans_idle]
      · grind [openSpan_idle, spans_idle]
    | some old =>
      have hended (span : Span α) (hspan : span ∈ spans opens closes events) := hclosed span hspan
      have hold := hsince old hopen
      by_cases ha : closes a
      · rw [openSpan_closes hopen ha, spans_closes hopen ha]
        refine ⟨?_, ?_, by simp⟩
        · grind
        · intro span hspan
          rcases List.mem_append.mp hspan with hspan | hspan
          · exact ⟨by have := (hended span hspan).1; omega, by simp⟩
          · grind [Span.ended]
      · grind [openSpan_goesOn, spans_goesOn, List.length_append, List.length_singleton]

end

end SlopDesk.Base
