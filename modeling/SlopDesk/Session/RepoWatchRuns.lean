/-
SlopDesk.Session.RepoWatchRuns — what holds of the repo watch over every run
of its calls.

§1 counts the owners of a repo. §2 is one repo of the fold, and what a
release and a retain do to it. §3 carries what the log says of a repo through
every call. §4 puts the two together.

An edge is not forgotten as long as no debounce of its repo fires without an
audience: such a debounce is skipped, and with it whatever reading was owed.
-/
import SlopDesk.Session.RepoWatch

namespace SlopDesk.Session

open SlopDesk.Base
open SlopDesk.Wire

variable {log : WatchLog} {repo other : String} {watch : RepoWatch}

/-! ## §1 Owners -/

namespace RepoWatch

variable {owner : UInt64}

/-- The owners counted against a repo. -/
def Owners (watch : RepoWatch) (repo : String) (owners : List UInt64) : Prop :=
  owners.Nodup ∧ ∀ owner, owner ∈ owners ↔ watch.ownerRepo[owner]? = some repo

/-- Every repo has as many owners as are counted, and is watched when it has
any; after the stop there are none. -/
structure Counted (watch : RepoWatch) : Prop where
  owners : ∀ repo, ∃ owners, watch.Owners repo owners ∧
    watch.repoOwners[repo]? = (if owners = [] then none else some owners.length) ∧
    (watch.watched.contains repo = true ↔ owners ≠ [])
  halted : watch.stopped = true → ∀ owner : UInt64, watch.ownerRepo[owner]? = none

theorem counted_new : new.Counted where
  owners repo := ⟨[], ⟨List.nodup_nil, by simp [new]⟩, by simp [new], by simp [new]⟩
  halted _ owner := by simp [new]

theorem Owners.erase {watch : RepoWatch} {repo : String} {owners : List UInt64} (h : watch.Owners repo owners)
    {released : RepoWatch} (hreleased : released.ownerRepo = watch.ownerRepo.erase owner) :
    released.Owners repo (owners.erase owner) := by
  refine ⟨h.1.erase owner, fun other => ?_⟩
  rw [h.1.mem_erase_iff, h.2, hreleased, BTreeMap.lookup_erase]
  by_cases hsame : other = owner
  · simp [hsame]
  · simp [hsame]

theorem Owners.not_mem {watch : RepoWatch} {repo : String} {owners : List UInt64} (h : watch.Owners repo owners)
    (hother : watch.ownerRepo[owner]? ≠ some repo) : owner ∉ owners :=
  fun hmem => hother ((h.2 owner).mp hmem)

/-- What a release does: nothing, for an owner that is counted nowhere; one
owner fewer, for a repo with others left; and all that is kept of the repo goes,
with the last. -/
theorem release_cases {watch : RepoWatch} (h : watch.Counted) (owner : UInt64) :
    (watch.ownerRepo[owner]? = none ∧ watch.release owner = (none, watch)) ∨
    (∃ repo owners, watch.ownerRepo[owner]? = some repo ∧ watch.Owners repo owners ∧ 1 < owners.length ∧
      watch.release owner = (none, { watch with
        ownerRepo := watch.ownerRepo.erase owner
        repoOwners := watch.repoOwners.insert repo (owners.length - 1) })) ∨
    (∃ repo, watch.ownerRepo[owner]? = some repo ∧ watch.Owners repo [owner] ∧
      watch.watched.contains repo = true ∧ watch.release owner = (some repo, { watch with
        ownerRepo := watch.ownerRepo.erase owner
        repoOwners := watch.repoOwners.erase repo
        watched := watch.watched.erase repo
        lastPushed := watch.lastPushed.erase repo
        pendingProbe := watch.pendingProbe.erase repo
        rearmAfterProbe := watch.rearmAfterProbe.erase repo })) := by
  rw [release]
  cases howner : watch.ownerRepo[owner]? with
  | none => exact .inl ⟨rfl, rfl⟩
  | some repo =>
    obtain ⟨owners, howners, hcount, hwatched⟩ := h.owners repo
    have hmem : owner ∈ owners := (howners.2 owner).mpr howner
    have hne : owners ≠ [] := List.ne_nil_of_mem hmem
    rw [if_neg hne] at hcount
    simp only [hcount, Option.getD_some]
    split
    case isTrue hmore =>
      exact .inr (.inl ⟨repo, owners, rfl, howners, by omega, rfl⟩)
    case isFalse hlast =>
      obtain ⟨only, rfl⟩ : ∃ only, owners = [only] := List.length_eq_one_iff.mp (by
        have := List.length_pos_of_mem hmem
        omega)
      obtain rfl : owner = only := List.mem_singleton.mp hmem
      refine .inr (.inr ⟨repo, rfl, howners, hwatched.mpr hne, ?_⟩)
      rw [if_pos (hwatched.mpr hne)]

theorem stopped_release (watch : RepoWatch) (owner : UInt64) :
    (watch.release owner).2.stopped = watch.stopped := by
  rw [release]
  cases watch.ownerRepo[owner]? with
  | none => rfl
  | some repo =>
    simp only
    split <;> rfl

theorem counted_release {watch : RepoWatch} (h : watch.Counted) (owner : UInt64) :
    (watch.release owner).2.Counted ∧ (watch.release owner).2.ownerRepo[owner]? = none := by
  rcases release_cases h owner with ⟨hnone, hrelease⟩ | ⟨repo, owners, howner, howners, hmore, hrelease⟩ |
    ⟨repo, howner, howners, hwatched, hrelease⟩
  · rw [hrelease]
    exact ⟨h, hnone⟩
  · rw [hrelease]
    refine ⟨⟨fun other => ?_, fun hstopped other => ?_⟩, by simp⟩
    · by_cases hsame : other = repo
      · subst hsame
        have hmem : owner ∈ owners := (howners.2 owner).mpr howner
        have hlength : (owners.erase owner).length = owners.length - 1 := List.length_erase_of_mem hmem
        have hne : owners.erase owner ≠ [] := List.ne_nil_of_length_pos (by omega)
        obtain ⟨owners', howners', -, hwatched⟩ := h.owners other
        have hsome : owners' ≠ [] := List.ne_nil_of_mem ((howners'.2 owner).mpr howner)
        refine ⟨owners.erase owner, howners.erase rfl, ?_, ?_⟩
        · simp [hne, hlength]
        · exact ⟨fun _ => hne, fun _ => hwatched.mpr hsome⟩
      · obtain ⟨owners', howners', hcount, hwatched⟩ := h.owners other
        have hnot : owner ∉ owners' := howners'.not_mem (by rw [howner]; simpa using Ne.symm hsame)
        refine ⟨owners', ?_, ?_, hwatched⟩
        · rw [← List.erase_of_not_mem hnot]
          exact howners'.erase rfl
        · simpa [BTreeMap.lookup_insert, hsame] using hcount
    · simp [BTreeMap.lookup_erase, h.halted hstopped]
  · rw [hrelease]
    refine ⟨⟨fun other => ?_, fun hstopped other => ?_⟩, by simp⟩
    · by_cases hsame : other = repo
      · subst hsame
        refine ⟨[], ⟨List.nodup_nil, fun owner' => ?_⟩, by simp, by simp⟩
        have honly := howners.2 owner'
        rw [BTreeMap.lookup_erase]
        by_cases hown : owner' = owner
        · simp [hown]
        · simpa [hown] using honly
      · obtain ⟨owners', howners', hcount, hwatched⟩ := h.owners other
        refine ⟨owners', ⟨howners'.1, fun owner' => ?_⟩, ?_, ?_⟩
        · rw [howners'.2, BTreeMap.lookup_erase]
          by_cases hown : owner' = owner
          · simp [hown, howner, Ne.symm hsame]
          · simp [hown]
        · simpa [BTreeMap.lookup_erase, hsame] using hcount
        · grind
    · simp [BTreeMap.lookup_erase, h.halted hstopped]

theorem counted_retain {watch : RepoWatch} (h : watch.Counted) (key : String)
    (hfree : watch.ownerRepo[owner]? = none) (hrunning : watch.stopped = false) :
    (watch.retain owner key).2.Counted := by
  obtain ⟨owners, howners, hcount, hwatched⟩ := h.owners key
  have hnot : owner ∉ owners := howners.not_mem (by simp [hfree])
  have hdegree : watch.repoOwners[key]?.getD 0 + 1 = (owner :: owners).length := by
    rw [hcount]
    cases owners <;> simp
  refine ⟨fun other => ?_, fun hstopped => absurd hstopped (by simp [retain, hrunning])⟩
  by_cases hsame : other = key
  · subst hsame
    refine ⟨owner :: owners, ⟨List.nodup_cons.mpr ⟨hnot, howners.1⟩, fun owner' => ?_⟩, ?_, ?_⟩
    · simp only [retain, List.mem_cons, howners.2, BTreeMap.lookup_insert]
      by_cases hown : owner' = owner
      · simp [hown]
      · simp [hown]
    · simp [retain, hcount]
      cases owners <;> simp
    · simp only [retain, hdegree, List.length_cons]
      cases owners with
      | nil => simp
      | cons first rest => simpa using hwatched
  · obtain ⟨owners', howners', hcount', hwatched'⟩ := h.owners other
    refine ⟨owners', ⟨howners'.1, fun owner' => ?_⟩, ?_, ?_⟩
    · simp only [retain, howners'.2, BTreeMap.lookup_insert]
      by_cases hown : owner' = owner
      · simp [hown, hfree, Ne.symm hsame]
      · simp [hown]
    · simpa [retain, BTreeMap.lookup_insert, hsame] using hcount'
    · simp only [retain]
      split
      · grind
      · exact hwatched'

theorem counted_noteProjectKey {watch : RepoWatch} (h : watch.Counted) (owner : UInt64) (key : String)
    (isRepoRoot : Bool) : (watch.noteProjectKey owner key isRepoRoot).2.Counted := by
  rw [noteProjectKey]
  split
  case isFalse => exact h
  case isTrue hwants =>
    obtain ⟨hreleased, hfree⟩ := counted_release h owner
    cases isRepoRoot with
    | false => exact hreleased
    | true =>
      refine counted_retain hreleased key hfree ?_
      rw [stopped_release]
      simp only [wantsKey, Bool.and_eq_true, Bool.not_eq_true'] at hwants
      exact hwants.1

theorem counted_shutdown (watch : RepoWatch) : watch.shutdown.2.Counted where
  owners repo := ⟨[], ⟨List.nodup_nil, by simp [shutdown]⟩, by simp [shutdown], by simp [shutdown]⟩
  halted _ owner := by simp [shutdown]

theorem Counted.congr {watch watch' : RepoWatch} (h : watch.Counted)
    (hsame : watch'.ownerRepo = watch.ownerRepo ∧ watch'.repoOwners = watch.repoOwners ∧
      watch'.watched = watch.watched ∧ watch'.stopped = watch.stopped) : watch'.Counted := by
  obtain ⟨howner, hcounts, hwatched, hstopped⟩ := hsame
  refine ⟨fun repo => ?_, ?_⟩
  · simpa [Owners, howner, hcounts, hwatched] using h.owners repo
  · rw [hstopped, howner]
    exact h.halted

theorem sourceEvent_owners (watch : RepoWatch) (repo : String) :
    (watch.sourceEvent repo).2.ownerRepo = watch.ownerRepo ∧
      (watch.sourceEvent repo).2.repoOwners = watch.repoOwners ∧
      (watch.sourceEvent repo).2.watched = watch.watched ∧
      (watch.sourceEvent repo).2.stopped = watch.stopped := by
  rw [sourceEvent]
  split <;> exact ⟨rfl, rfl, rfl, rfl⟩

theorem debounceFired_owners (watch : RepoWatch) (repo : String) (generation : UInt64) (hasAudience : Bool) :
    (watch.debounceFired repo generation hasAudience).2.ownerRepo = watch.ownerRepo ∧
      (watch.debounceFired repo generation hasAudience).2.repoOwners = watch.repoOwners ∧
      (watch.debounceFired repo generation hasAudience).2.watched = watch.watched ∧
      (watch.debounceFired repo generation hasAudience).2.stopped = watch.stopped := by
  rw [debounceFired]
  split
  · exact ⟨rfl, rfl, rfl, rfl⟩
  · cases hasAudience with
    | false => exact ⟨rfl, rfl, rfl, rfl⟩
    | true =>
      grind

theorem probeFinished_owners (watch : RepoWatch) (repo : String) (status : Option ProjectGitStatus) :
    (watch.probeFinished repo status).2.ownerRepo = watch.ownerRepo ∧
      (watch.probeFinished repo status).2.repoOwners = watch.repoOwners ∧
      (watch.probeFinished repo status).2.watched = watch.watched ∧
      (watch.probeFinished repo status).2.stopped = watch.stopped := by
  have hnews (watch : RepoWatch) : (watch.news repo status).2.ownerRepo = watch.ownerRepo ∧
      (watch.news repo status).2.repoOwners = watch.repoOwners ∧
      (watch.news repo status).2.watched = watch.watched ∧
      (watch.news repo status).2.stopped = watch.stopped := by
    cases status with
    | none => exact ⟨rfl, rfl, rfl, rfl⟩
    | some status =>
      grind [news]
  rw [probeFinished]
  split
  · exact ⟨rfl, rfl, rfl, rfl⟩
  · simp only
    split
    case isTrue =>
      obtain ⟨howner, hcounts, hwatched, hstopped⟩ := hnews { watch with
        probing := watch.probing.erase repo, rearmAfterProbe := watch.rearmAfterProbe.erase repo }
      obtain ⟨howner', hcounts', hwatched', hstopped'⟩ := sourceEvent_owners
        ({ watch with probing := watch.probing.erase repo, rearmAfterProbe := watch.rearmAfterProbe.erase repo }
          |>.news repo status).2 repo
      exact ⟨howner'.trans howner, hcounts'.trans hcounts, hwatched'.trans hwatched, hstopped'.trans hstopped⟩
    case isFalse => exact hnews _

theorem Counted.unwatched {watch : RepoWatch} (h : watch.Counted) (hstopped : watch.stopped = true) (repo : String) :
    watch.watched.contains repo = false := by
  obtain ⟨owners, howners, -, hwatched⟩ := h.owners repo
  have hnone : owners = [] := List.eq_nil_iff_forall_not_mem.mpr
    fun owner => howners.not_mem (by simp [h.halted hstopped])
  exact Bool.eq_false_iff.mpr fun hcontains => hwatched.mp hcontains hnone

theorem counted_step (watch : RepoWatch) (call : WatchCall) (h : watch.Counted) : (watch.step call).2.Counted := by
  cases call with
  | noteProjectKey owner key isRepoRoot => exact counted_noteProjectKey h owner key isRepoRoot
  | dropOwner owner => exact (counted_release h owner).1
  | shutdown => exact counted_shutdown watch
  | sourceEvent repo => exact h.congr (sourceEvent_owners watch repo)
  | debounceFired repo generation hasAudience => exact h.congr (debounceFired_owners watch repo generation hasAudience)
  | probeFinished repo status => exact h.congr (probeFinished_owners watch repo status)

/-! ## §2 One repo -/

/-- What the fold holds of one repo. -/
structure View where
  watched : Bool
  lastPushed : Option ProjectGitStatus
  pending : Option UInt64
  probing : Bool
  owed : Bool

def view (watch : RepoWatch) (repo : String) : View where
  watched := watch.watched.contains repo
  lastPushed := watch.lastPushed[repo]?
  pending := watch.pendingProbe[repo]?
  probing := watch.probing.contains repo
  owed := watch.rearmAfterProbe.contains repo

/-- What a key change does to a repo: nothing, its release whole, or its
first owner. -/
inductive Moves : View → View → List Bool → Prop
  | stays (view : View) : Moves view view []
  | cancelled (view : View) (hwatched : view.watched = true) (owed : Bool) :
    Moves view { view with watched := false, lastPushed := none, pending := none, owed } [false]
  | created (view : View) (hwatched : view.watched = false) :
    Moves view { view with watched := true } [true]

theorem Moves.eq {view view' : View} (h : Moves view view' []) : view' = view := by
  cases h
  rfl

theorem release_moves {watch : RepoWatch} (h : watch.Counted) (owner : UInt64) (repo : String) :
    Moves (watch.view repo) ((watch.release owner).2.view repo)
      (if (watch.release owner).1 = some repo then [false] else []) := by
  rcases release_cases h owner with ⟨hnone, hrelease⟩ | ⟨_, _, -, -, -, hrelease⟩ |
    ⟨last, -, -, hwatched, hrelease⟩
  · rw [hrelease]
    exact .stays _
  · rw [hrelease]
    exact .stays _
  · rw [hrelease]
    by_cases hsame : repo = last
    · subst hsame
      have hmoves := Moves.cancelled (watch.view repo) hwatched false
      simpa [view] using hmoves
    · have hview : { watch with
            ownerRepo := watch.ownerRepo.erase owner
            repoOwners := watch.repoOwners.erase last
            watched := watch.watched.erase last
            lastPushed := watch.lastPushed.erase last
            pendingProbe := watch.pendingProbe.erase last
            rearmAfterProbe := watch.rearmAfterProbe.erase last : RepoWatch }.view repo = watch.view repo := by
        simp only [view, BTreeSet.contains_erase, BTreeMap.lookup_erase, if_neg hsame]
      rw [hview, if_neg (by simpa using Ne.symm hsame)]
      exact .stays _

theorem retain_moves {watch : RepoWatch} (h : watch.Counted) (owner : UInt64) (key repo : String) :
    Moves (watch.view repo) ((watch.retain owner key).2.view repo)
      (if (watch.retain owner key).1 = some repo then [true] else []) := by
  obtain ⟨owners, -, hcount, hwatched⟩ := h.owners key
  cases owners with
  | cons first rest =>
    -- watched by others already
    have hmany : ¬ watch.repoOwners[key]?.getD 0 + 1 = 1 := by simp [hcount]
    have hnone : (watch.retain owner key).1 = none := by simp [retain, hcount]
    have hview : (watch.retain owner key).2.view repo = watch.view repo := by
      simp only [retain, view, if_neg hmany]
    rw [hnone, hview]
    exact .stays _
  | nil =>
    have hunwatched : watch.watched.contains key = false :=
      Bool.eq_false_iff.mpr fun hcontains => hwatched.mp hcontains rfl
    have hone : watch.repoOwners[key]?.getD 0 + 1 = 1 := by simp [hcount]
    have hcreate : (watch.retain owner key).1 = some key := by
      simp only [retain, hone, hunwatched]
      simp
    have hwatch : (watch.retain owner key).2.watched = watch.watched.insert key := by
      simp only [retain, if_pos hone]
    rw [hcreate]
    by_cases hsame : repo = key
    · subst hsame
      have hmoves := Moves.created (watch.view repo) hunwatched
      have hview : (watch.retain owner repo).2.view repo = { watch.view repo with watched := true } := by
        simp only [view, hwatch, BTreeSet.contains_insert, if_true]
        rfl
      rw [if_pos rfl, hview]
      exact hmoves
    · have hview : (watch.retain owner key).2.view repo = watch.view repo := by
        simp only [view, hwatch, BTreeSet.contains_insert, if_neg hsame]
        rfl
      rw [if_neg (by simpa using Ne.symm hsame), hview]
      exact .stays _

end RepoWatch

open RepoWatch

/-! ## §3 The log -/

/-- The creations and cancellations of a stream alternate, and it was created
first. -/
def Alternates (streams : List Bool) : Prop :=
  streams.IsChain (· ≠ ·) ∧ ∀ first ∈ streams.getLast?, first = true

/-- What the log says of a repo, and what the fold holds of it. -/
structure Kept (repo : String) (log : WatchLog) (view : View) : Prop where
  alternates : Alternates (log.streams repo)
  watched : view.watched = true ↔ (log.streams repo).head? = some true
  inFlight : log.inFlight repo = if view.probing then 1 else 0
  pushed : view.lastPushed = log.lastPush repo
  bare : view.watched = false → view.lastPushed = none ∧ view.pending = none
  read : log.unread repo = true → view.watched = true ∧
    (view.pending ≠ none ∨ view.owed = true ∧ view.probing = true)

theorem kept_nil (repo : String) : Kept repo [] (new.view repo) where
  alternates := ⟨.nil, by simp [WatchLog.streams]⟩
  watched := by simp [RepoWatch.view, new, WatchLog.streams]
  inFlight := by simp [RepoWatch.view, new, WatchLog.inFlight]
  pushed := by simp [RepoWatch.view, new, WatchLog.lastPush]
  bare _ := by simp [RepoWatch.view, new]
  read h := by simp [WatchLog.unread] at h

/-- One more creation or cancellation, of a stream that is cancelled or
created. -/
theorem Alternates.cons {streams : List Bool} (h : Alternates streams) {next : Bool}
    (hnext : next = true ↔ streams.head? ≠ some true) : Alternates (next :: streams) := by
  obtain ⟨hchain, hfirst⟩ := h
  cases streams with
  | nil => exact ⟨.singleton next, by simpa using hnext⟩
  | cons last streams =>
    refine ⟨List.isChain_cons_cons.mpr ⟨?_, hchain⟩, by simpa [List.getLast?_cons_cons] using hfirst⟩
    cases last <;> cases next <;> simp at hnext ⊢

/-- A key change: what the log says of readings, pushes and edges is as before
unless the stream is cancelled, and then it is nothing. -/
theorem Kept.moves {view view' : View} (h : Kept repo log view)
    {streams : List Bool} (hmoves : Moves view view' streams) {entry : WatchCall × WatchAnswer}
    (hstreams : entry.2.streams repo = streams) (hflight : WatchLog.inFlight repo (entry :: log) = log.inFlight repo)
    (hpush : WatchLog.lastPush repo (entry :: log) = if false ∈ streams then none else log.lastPush repo)
    (hunread : WatchLog.unread repo (entry :: log) = if false ∈ streams then false else log.unread repo) :
    Kept repo (entry :: log) view' := by
  have hlog : WatchLog.streams repo (entry :: log) = streams ++ log.streams repo := by
    rw [WatchLog.streams, hstreams]
  cases hmoves with
  | stays =>
    refine ⟨hlog ▸ h.alternates, hlog ▸ h.watched, hflight ▸ h.inFlight, ?_, h.bare, ?_⟩
    · rw [hpush, if_neg List.not_mem_nil]
      exact h.pushed
    · rw [hunread, if_neg List.not_mem_nil]
      exact h.read
  | cancelled hwatched owed =>
    have hhead := h.watched.mp hwatched
    refine ⟨?_, ?_, hflight ▸ h.inFlight, ?_, fun _ => ⟨rfl, rfl⟩, ?_⟩
    · rw [hlog]
      exact h.alternates.cons (by simp [hhead])
    · rw [hlog]
      simp
    · rw [hpush, if_pos List.mem_cons_self]
    · simp [hunread, if_pos]
  | created hunwatched =>
    have hhead : (log.streams repo).head? ≠ some true := fun hhead => by
      grind [h.watched.mpr]
    refine ⟨?_, ?_, hflight ▸ h.inFlight, ?_, fun hcontra => ?_, ?_⟩
    · rw [hlog]
      exact h.alternates.cons (by simp [hhead])
    · rw [hlog]
      simp
    · rw [hpush, if_neg (by decide)]
      exact h.pushed
    · cases hcontra
    · rw [hunread, if_neg (by decide)]
      intro hopen
      exact ⟨rfl, (h.read hopen).2⟩

theorem kept_noteProjectKey (hcounted : watch.Counted)
    (h : Kept repo log (watch.view repo)) (owner : UInt64) (key : String) (isRepoRoot : Bool) :
    Kept repo ((.noteProjectKey owner key isRepoRoot, (watch.step (.noteProjectKey owner key isRepoRoot)).1) :: log)
      ((watch.step (.noteProjectKey owner key isRepoRoot)).2.view repo) := by
  suffices hmoves : Moves (watch.view repo) ((watch.noteProjectKey owner key isRepoRoot).2.view repo)
      ((WatchAnswer.keyed (watch.noteProjectKey owner key isRepoRoot).1).streams repo) from
    h.moves hmoves rfl rfl rfl rfl
  rw [noteProjectKey]
  split
  case isFalse => exact .stays _
  case isTrue hwants =>
    obtain ⟨hreleased, -⟩ := counted_release hcounted owner
    have hrelease := release_moves hcounted owner repo
    cases isRepoRoot with
    | false => simpa [WatchAnswer.streams] using hrelease
    | true =>
      have hretain := retain_moves hreleased owner key repo
      simp only [WatchAnswer.streams, if_true]
      by_cases hcancel : (watch.release owner).1 = some repo
      · -- the repo released is not the key, which is wanted
        have hother : repo ≠ key := by
          rintro rfl
          rcases release_cases hcounted owner with ⟨-, hcase⟩ | ⟨_, _, -, -, -, hcase⟩ | ⟨last, howner, -, -, hcase⟩
          · rw [hcase] at hcancel
            cases hcancel
          · rw [hcase] at hcancel
            cases hcancel
          · rw [hcase] at hcancel
            obtain rfl : last = repo := Option.some.inj hcancel
            simp [wantsKey, howner] at hwants
        have hcreate : ((watch.release owner).2.retain owner key).1 ≠ some repo := by
          grind [retain]
        rw [if_neg hcreate] at hretain ⊢
        rw [hretain.eq]
        exact hrelease
      · rw [if_neg hcancel] at hrelease ⊢
        rw [hrelease.eq] at hretain
        rw [List.append_nil]
        exact hretain

theorem kept_shutdown (h : Kept repo log (watch.view repo)) :
    Kept repo ((.shutdown, (watch.step .shutdown).1) :: log) ((watch.step .shutdown).2.view repo) := by
  suffices hmoves : Moves (watch.view repo) (watch.shutdown.2.view repo)
      ((WatchAnswer.stopped watch.shutdown.1).streams repo) from h.moves hmoves rfl rfl rfl rfl
  have hview : watch.shutdown.2.view repo =
      { watch.view repo with watched := false, lastPushed := none, pending := none } := by
    simp [shutdown, RepoWatch.view]
  rw [hview]
  by_cases hwatched : watch.watched.contains repo = true
  · have hlisted : repo ∈ watch.shutdown.1 := by simpa [shutdown] using hwatched
    rw [WatchAnswer.streams, if_pos hlisted]
    exact .cancelled _ hwatched _
  · have hlisted : repo ∉ watch.shutdown.1 := by simpa [shutdown] using hwatched
    have hunwatched : (watch.view repo).watched = false := Bool.eq_false_iff.mpr hwatched
    obtain ⟨hpushed, hpending⟩ := h.bare hunwatched
    rw [WatchAnswer.streams, if_neg hlisted]
    have hsame : { watch.view repo with watched := false, lastPushed := none, pending := none } =
        watch.view repo := by
      rw [← hunwatched, ← hpushed, ← hpending]
    rw [hsame]
    exact .stays _

theorem Kept.quiet {view : View} (h : Kept repo log view)
    {entry : WatchCall × WatchAnswer} (hstreams : entry.2.streams repo = [])
    (hflight : WatchLog.inFlight repo (entry :: log) = log.inFlight repo)
    (hpush : WatchLog.lastPush repo (entry :: log) = log.lastPush repo)
    (hunread : WatchLog.unread repo (entry :: log) = log.unread repo) : Kept repo (entry :: log) view :=
  h.moves (.stays view) hstreams hflight (hpush.trans (if_neg List.not_mem_nil).symm)
    (hunread.trans (if_neg List.not_mem_nil).symm)

theorem view_sourceEvent (hstopped : watch.stopped = false) (hwatched : watch.watched.contains repo = true) :
    watch.sourceEvent repo = (some (watch.probeGeneration + 1), (watch.sourceEvent repo).2) ∧
      (watch.sourceEvent repo).2.view repo =
        { watch.view repo with pending := some (watch.probeGeneration + 1) } := by
  rw [sourceEvent, hstopped, hwatched]
  simp [RepoWatch.view]

/-- An edge of another repo, or of one that is not watched, does nothing to
what is held of this one. -/
theorem view_sourceEvent_ne (h : other ≠ repo) :
    (watch.sourceEvent other).2.view repo = watch.view repo := by
  rw [sourceEvent]
  split
  · rfl
  · simp only [RepoWatch.view, BTreeMap.lookup_insert, if_neg (Ne.symm h)]

theorem kept_sourceEvent (h : Kept repo log (watch.view repo)) (other : String) :
    Kept repo ((.sourceEvent other, (watch.step (.sourceEvent other)).1) :: log)
      ((watch.step (.sourceEvent other)).2.view repo) := by
  show Kept repo ((.sourceEvent other, .armed (watch.sourceEvent other).1) :: log)
    ((watch.sourceEvent other).2.view repo)
  by_cases hsame : other = repo
  · subst hsame
    by_cases harmed : watch.stopped = false ∧ watch.watched.contains other = true
    · obtain ⟨hanswer, hview⟩ := view_sourceEvent harmed.1 harmed.2
      rw [hanswer, hview]
      exact {
        alternates := h.alternates
        watched := h.watched
        inFlight := h.inFlight
        pushed := h.pushed
        bare hunwatched := absurd hunwatched (by simpa [RepoWatch.view] using harmed.2)
        read _ := ⟨harmed.2, .inl (by simp)⟩ }
    · have hnone : watch.sourceEvent other = (none, watch) := by
        rw [sourceEvent, if_pos]
        cases hstopped : watch.stopped with
        | true => rfl
        | false =>
          grind
      rw [hnone]
      exact h.quiet rfl rfl rfl rfl
  · rw [view_sourceEvent_ne hsame]
    refine h.quiet rfl rfl rfl ?_
    cases (watch.sourceEvent other).1 with
    | none => rfl
    | some generation => simp [WatchLog.unread, WatchAnswer.streams, hsame]

theorem debounceFired_cases (watch : RepoWatch) (repo : String) (generation : UInt64) (hasAudience : Bool) :
    watch.debounceFired repo generation hasAudience = (.stale, watch) ∨
    ((watch.view repo).watched = true ∧
      (((watch.debounceFired repo generation hasAudience).1 = .noAudience ∧
        (watch.debounceFired repo generation hasAudience).2.view repo =
          { watch.view repo with pending := none }) ∨
      ((watch.debounceFired repo generation hasAudience).1 = .deferred ∧ (watch.view repo).probing = true ∧
        (watch.debounceFired repo generation hasAudience).2.view repo =
          { watch.view repo with pending := none, owed := true }) ∨
      ((watch.debounceFired repo generation hasAudience).1 = .probe ∧ (watch.view repo).probing = false ∧
        (watch.debounceFired repo generation hasAudience).2.view repo =
          { watch.view repo with pending := none, probing := true }))) := by
  rw [debounceFired]
  split
  case isTrue => exact .inl rfl
  case isFalse hlive =>
    simp only [Bool.or_eq_true, Bool.not_eq_true', not_or, Bool.not_eq_true, Bool.not_eq_false] at hlive
    refine .inr ⟨hlive.2, ?_⟩
    cases hasAudience with
    | false => exact .inl ⟨rfl, by simp [RepoWatch.view]⟩
    | true =>
      simp only [Bool.not_true, Bool.false_eq_true, if_false]
      split
      case isTrue hprobing => exact .inr (.inl ⟨rfl, hprobing, by simp [RepoWatch.view]⟩)
      case isFalse hprobing =>
        exact .inr (.inr ⟨rfl, Bool.eq_false_iff.mpr hprobing, by simp [RepoWatch.view]⟩)

theorem view_debounceFired_ne (h : other ≠ repo) (generation : UInt64)
    (hasAudience : Bool) : (watch.debounceFired other generation hasAudience).2.view repo = watch.view repo := by
  rw [debounceFired]
  split
  · rfl
  · cases hasAudience with
    | false => simp only [RepoWatch.view, BTreeMap.lookup_erase, if_neg (Ne.symm h), Bool.not_false, if_true]
    | true =>
      simp only [Bool.not_true, Bool.false_eq_true, if_false]
      split
      · simp only [RepoWatch.view, BTreeMap.lookup_erase, BTreeSet.contains_insert, if_neg (Ne.symm h)]
      · simp only [RepoWatch.view, BTreeMap.lookup_erase, BTreeSet.contains_insert, if_neg (Ne.symm h)]

theorem kept_debounceFired
    (h : Kept repo log (watch.view repo)) (other : String) (generation : UInt64) (hasAudience : Bool) :
    Kept repo ((.debounceFired other generation hasAudience,
        (watch.step (.debounceFired other generation hasAudience)).1) :: log)
      ((watch.step (.debounceFired other generation hasAudience)).2.view repo) := by
  show Kept repo ((.debounceFired other generation hasAudience,
      .fired (watch.debounceFired other generation hasAudience).1) :: log)
    ((watch.debounceFired other generation hasAudience).2.view repo)
  by_cases hsame : other = repo
  · subst hsame
    rcases debounceFired_cases watch other generation hasAudience with hstale |
      ⟨hwatched, ⟨hverdict, hview⟩ | ⟨hverdict, hprobing, hview⟩ | ⟨hverdict, hprobing, hview⟩⟩
    · rw [hstale]
      exact h.quiet rfl rfl rfl rfl
    · rw [hverdict, hview]
      exact {
        alternates := h.alternates
        watched := h.watched
        inFlight := h.inFlight
        pushed := h.pushed
        bare hunwatched := ⟨(h.bare hunwatched).1, rfl⟩
        read hopen := by simp [WatchLog.unread, WatchAnswer.streams] at hopen }
    · rw [hverdict, hview]
      exact {
        alternates := h.alternates
        watched := h.watched
        inFlight := h.inFlight
        pushed := h.pushed
        bare hunwatched := ⟨(h.bare hunwatched).1, rfl⟩
        read _ := ⟨hwatched, .inr ⟨rfl, hprobing⟩⟩ }
    · rw [hverdict, hview]
      have hflight := h.inFlight
      rw [hprobing] at hflight
      exact {
        alternates := h.alternates
        watched := h.watched
        inFlight := by simpa [WatchLog.inFlight] using hflight
        pushed := h.pushed
        bare hunwatched := ⟨(h.bare hunwatched).1, rfl⟩
        read hopen := by simp [WatchLog.unread, WatchAnswer.streams] at hopen }
  · rw [view_debounceFired_ne hsame]
    cases (watch.debounceFired other generation hasAudience).1 with
    | stale => exact h.quiet rfl rfl rfl rfl
    | deferred => exact h.quiet rfl rfl rfl rfl
    | noAudience =>
      exact h.quiet rfl rfl rfl (by simp [WatchLog.unread, WatchAnswer.streams, hsame])
    | probe =>
      exact h.quiet rfl (by simp [WatchLog.inFlight, hsame]) rfl
        (by simp [WatchLog.unread, WatchAnswer.streams, hsame])

/-- What a reading's return does to what is held of its repo: nothing but
that it is no longer in flight, when the repo is not watched; else it is news or
not, and the follow-up it owes is armed. -/
theorem probeFinished_cases (hcounted : watch.Counted) (repo : String) (status : Option ProjectGitStatus) :
    ((watch.view repo).watched = false ∧ (watch.probeFinished repo status).1 = ⟨false, none⟩ ∧
      (watch.probeFinished repo status).2.view repo = { watch.view repo with probing := false, owed := false }) ∨
    (∃ push rearm, (watch.view repo).watched = true ∧ (watch.probeFinished repo status).1 = ⟨push, rearm⟩ ∧
      (push = true ↔ status ≠ none ∧ status ≠ (watch.view repo).lastPushed) ∧
      (watch.probeFinished repo status).2.view repo = { watch.view repo with
        lastPushed := if push then status else (watch.view repo).lastPushed
        pending := if (watch.view repo).owed then some (watch.probeGeneration + 1) else (watch.view repo).pending
        probing := false
        owed := false }) := by
  cases hwatched : watch.watched.contains repo with
  | false =>
    rw [probeFinished, hwatched]
    simp [RepoWatch.view, hwatched]
  | true =>
    have hrunning : watch.stopped = false := by
      cases hstopped : watch.stopped with
      | false => rfl
      | true => grind [hcounted.unwatched]
    let finished : RepoWatch := { watch with
      probing := watch.probing.erase repo
      rearmAfterProbe := watch.rearmAfterProbe.erase repo }
    obtain ⟨hpush, hwatchedNews, hstoppedNews, hgeneration, hnews⟩ :
        ((finished.news repo status).1 = true ↔ status ≠ none ∧ status ≠ (watch.view repo).lastPushed) ∧
        (finished.news repo status).2.watched.contains repo = true ∧
        (finished.news repo status).2.stopped = false ∧
        (finished.news repo status).2.probeGeneration = watch.probeGeneration ∧
        (finished.news repo status).2.view repo = { watch.view repo with
          lastPushed := if (finished.news repo status).1 then status else (watch.view repo).lastPushed
          probing := false
          owed := false } := by
      cases status with
      | none =>
        refine ⟨by simp [news], hwatched, hrunning, rfl, ?_⟩
        simp [news, RepoWatch.view, finished]
      | some status =>
        simp only [news]
        split
        case isTrue hold =>
          have hold : watch.lastPushed[repo]? = some status := hold
          refine ⟨by simp [RepoWatch.view, hold], hwatched, hrunning, rfl, ?_⟩
          simp [RepoWatch.view, finished]
        case isFalse hnew =>
          refine ⟨by simpa [RepoWatch.view] using Ne.symm hnew, hwatched, hrunning, rfl, ?_⟩
          simp [RepoWatch.view, finished]
    have hunfold : watch.probeFinished repo status =
        if watch.rearmAfterProbe.contains repo then
          (⟨(finished.news repo status).1, ((finished.news repo status).2.sourceEvent repo).1⟩,
            ((finished.news repo status).2.sourceEvent repo).2)
        else (⟨(finished.news repo status).1, none⟩, (finished.news repo status).2) := by
      rw [probeFinished, if_neg (by rw [hwatched, hrunning]; decide)]
    rw [hunfold]
    cases howed : watch.rearmAfterProbe.contains repo with
    | true =>
      obtain ⟨-, hview⟩ := view_sourceEvent hstoppedNews hwatchedNews
      have howedView : (watch.view repo).owed = true := howed
      refine .inr ⟨_, _, hwatched, rfl, hpush, ?_⟩
      rw [if_pos rfl, hview, hnews, hgeneration, if_pos howedView]
    | false =>
      have howedView : (watch.view repo).owed = false := howed
      refine .inr ⟨_, _, hwatched, rfl, hpush, ?_⟩
      rw [if_neg Bool.false_ne_true, hnews, howedView]
      rfl

theorem view_news_ne (h : other ≠ repo) (status : Option ProjectGitStatus) :
    (watch.news other status).2.view repo = watch.view repo := by
  cases status with
  | none => rfl
  | some status =>
    simp only [news]
    split
    · rfl
    · simp only [RepoWatch.view, BTreeMap.lookup_insert, if_neg (Ne.symm h)]

theorem view_probeFinished_ne (h : other ≠ repo)
    (status : Option ProjectGitStatus) : (watch.probeFinished other status).2.view repo = watch.view repo := by
  have hfinished : { watch with
      probing := watch.probing.erase other
      rearmAfterProbe := watch.rearmAfterProbe.erase other : RepoWatch }.view repo = watch.view repo := by
    simp only [RepoWatch.view, BTreeSet.contains_erase, if_neg (Ne.symm h)]
  rw [probeFinished]
  split
  · exact hfinished
  · simp only
    split
    · exact (view_sourceEvent_ne h).trans ((view_news_ne h status).trans hfinished)
    · exact (view_news_ne h status).trans hfinished

theorem kept_probeFinished (hcounted : watch.Counted)
    (h : Kept repo log (watch.view repo)) (other : String) (status : Option ProjectGitStatus) :
    Kept repo ((.probeFinished other status, (watch.step (.probeFinished other status)).1) :: log)
      ((watch.step (.probeFinished other status)).2.view repo) := by
  show Kept repo ((.probeFinished other status, .finished (watch.probeFinished other status).1) :: log)
    ((watch.probeFinished other status).2.view repo)
  by_cases hsame : other = repo
  · subst hsame
    have hflight : log.inFlight other - 1 = 0 := by
      rw [h.inFlight]
      split <;> rfl
    rcases probeFinished_cases hcounted other status with ⟨hunwatched, hverdict, hview⟩ |
      ⟨push, rearm, hwatched, hverdict, hpush, hview⟩
    · rw [hverdict, hview]
      have hread : log.unread other ≠ true := by
        intro hopen
        rw [(h.read hopen).1] at hunwatched
        cases hunwatched
      exact {
        alternates := h.alternates
        watched := h.watched
        inFlight := by simpa [WatchLog.inFlight] using hflight
        pushed := by cases status <;> exact h.pushed
        bare := h.bare
        read hopen := absurd hopen hread }
    · rw [hverdict, hview]
      refine {
        alternates := h.alternates
        watched := h.watched
        inFlight := by simpa [WatchLog.inFlight] using hflight
        pushed := ?_
        bare := fun hunwatched => by rw [hwatched] at hunwatched; cases hunwatched
        read := fun hopen => ⟨hwatched, .inl ?_⟩ }
      · cases push with
        | false => cases status <;> exact h.pushed
        | true =>
          cases status with
          | none => exact absurd rfl (hpush.mp rfl).1
          | some status => simp [WatchLog.lastPush, WatchAnswer.streams]
      · -- what was armed is, and what was owed is armed now
        rcases (h.read hopen).2 with hpending | ⟨howed, -⟩
        · grind
        · simp [howed]
  · rw [view_probeFinished_ne hsame]
    refine h.quiet rfl (by simp [WatchLog.inFlight, hsame]) ?_ rfl
    cases status with
    | none => rfl
    | some status =>
      rcases (watch.probeFinished other (some status)).1 with ⟨_ | _, rearm⟩
      · rfl
      · simp [WatchLog.lastPush, WatchAnswer.streams, hsame]

/-! ## §4 Every run -/

theorem kept_step {history : WatchHistory} (hcounted : history.watch.Counted)
    (h : Kept repo history.log (history.watch.view repo)) (call : WatchCall) :
    Kept repo (history.step call).log ((history.step call).watch.view repo) := by
  cases call with
  | noteProjectKey owner key isRepoRoot => exact kept_noteProjectKey hcounted h owner key isRepoRoot
  | dropOwner owner => exact h.moves (release_moves hcounted owner repo) rfl rfl rfl rfl
  | shutdown => exact kept_shutdown h
  | sourceEvent other => exact kept_sourceEvent h other
  | debounceFired other generation hasAudience => exact kept_debounceFired h other generation hasAudience
  | probeFinished other status => exact kept_probeFinished hcounted h other status

theorem kept_run (calls : List WatchCall) (repo : String) : (run WatchHistory.step {} calls).watch.Counted ∧
      Kept repo (run WatchHistory.step {} calls).log ((run WatchHistory.step {} calls).watch.view repo) :=
  run_invariant
    (fun history : WatchHistory => history.watch.Counted ∧ Kept repo history.log (history.watch.view repo))
    (fun history call h => ⟨counted_step history.watch call h.1, kept_step h.1 h.2 call⟩)
    ⟨counted_new, kept_nil repo⟩ calls

/-- After any calls: a repo is watched exactly while it has owners and the
daemon runs, its stream was created and cancelled in turn, at most one reading of
it is in flight, and the next status pushed is not the last one of this watch.
And while it stays watched and no debounce of it fires without an audience, an
edge is followed by a reading that started after it, or one is armed, or owed by
the reading in flight. -/
theorem RepoWatch.bookkeeping (calls : List WatchCall) (repo : String) :
    let history := run WatchHistory.step {} calls
    let watch := history.watch
    (∃ owners, watch.Owners repo owners ∧ watch.repoOwners[repo]?.getD 0 = owners.length ∧
      (watch.watched.contains repo = true ↔ watch.stopped = false ∧ owners ≠ [])) ∧
    Alternates (history.log.streams repo) ∧
    history.log.inFlight repo ≤ 1 ∧
    (∀ status, (watch.probeFinished repo status).1.push = true →
      ∃ pushed, status = some pushed ∧ history.log.lastPush repo ≠ some pushed) ∧
    (history.log.unread repo = true →
      watch.pendingProbe[repo]? ≠ none ∨
      watch.rearmAfterProbe.contains repo = true ∧ history.log.inFlight repo = 1) := by
  intro history watch
  obtain ⟨hcounted, hkept⟩ := kept_run calls repo
  refine ⟨?_, hkept.alternates, ?_, fun status hpush => ?_, fun hopen => ?_⟩
  · obtain ⟨owners, howners, hcount, hwatched⟩ := hcounted.owners repo
    refine ⟨owners, howners, ?_, fun hcontains => ⟨?_, hwatched.mp hcontains⟩, fun h => hwatched.mpr h.2⟩
    · rw [hcount]
      cases owners <;> simp
    · cases hstopped : watch.stopped with
      | false => rfl
      | true => grind [hcounted.unwatched]
  · rw [hkept.inFlight]
    split <;> decide
  · rcases probeFinished_cases hcounted repo status with ⟨-, hverdict, -⟩ | ⟨push, rearm, -, hverdict, hnews, -⟩
    · rw [hverdict] at hpush
      cases hpush
    · rw [hverdict] at hpush
      obtain ⟨hsome, hdiffers⟩ := hnews.mp hpush
      obtain ⟨pushed, rfl⟩ := Option.ne_none_iff_exists'.mp hsome
      exact ⟨pushed, rfl, fun hlast => hdiffers (hkept.pushed.trans hlast).symm⟩
  · rcases (hkept.read hopen).2 with hpending | ⟨howed, hprobing⟩
    · exact .inl hpending
    · exact .inr ⟨howed, by rw [hkept.inFlight, hprobing]; rfl⟩

/-- An edge whose debounce fired with an audience, and was deferred; the
follow-up fires with none, and no reading of the edge is started, armed or owed. -/
theorem RepoWatch.skipped_follow_up :
    let history := run WatchHistory.step {}
      [.noteProjectKey 1 "/repo" true, .sourceEvent "/repo", .debounceFired "/repo" 1 true,
        .sourceEvent "/repo", .debounceFired "/repo" 2 true, .probeFinished "/repo" none,
        .debounceFired "/repo" 3 false]
    history.log.map Prod.snd = [.fired .noAudience, .finished ⟨false, some 3⟩, .fired .deferred, .armed (some 2),
        .fired .probe, .armed (some 1), .keyed ⟨none, some "/repo"⟩] ∧
      history.watch.watched.contains "/repo" = true ∧ history.watch.pendingProbe["/repo"]? = none ∧
      history.watch.rearmAfterProbe.contains "/repo" = false ∧ history.log.inFlight "/repo" = 0 := by
  decide +kernel

end SlopDesk.Session
