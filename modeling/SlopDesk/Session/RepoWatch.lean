/-
SlopDesk.Session.RepoWatch — who is asking for a repo's git line, and when
it is worth reading again (`slopdesk-muxsession/src/repo_watch.rs`).

The fold holds no handle and starts no timer: each of its methods answers
what the host is to do next. A run of it is a list of calls, and what they
answered is kept with them, newest first.
-/
import SlopDesk.Base.BTree
import SlopDesk.Base.Runs
import SlopDesk.Wire.Codec

namespace SlopDesk.Session

open SlopDesk.Base
open SlopDesk.Wire

structure KeyEffects where
  cancel : Option String := none
  create : Option String := none
  deriving DecidableEq

inductive ProbeVerdict where
  | stale
  | noAudience
  | deferred
  | probe
  deriving DecidableEq, Repr

structure FinishVerdict where
  push : Bool
  rearm : Option UInt64
  deriving DecidableEq

structure RepoWatch where
  ownerRepo : BTreeMap UInt64 String := ∅
  repoOwners : BTreeMap String Nat := ∅
  watched : BTreeSet String := ∅
  lastPushed : BTreeMap String ProjectGitStatus := ∅
  pendingProbe : BTreeMap String UInt64 := ∅
  probeGeneration : UInt64 := 0
  probing : BTreeSet String := ∅
  rearmAfterProbe : BTreeSet String := ∅
  stopped : Bool := false

namespace RepoWatch

def new : RepoWatch := {}

def wantsKey (watch : RepoWatch) (owner : UInt64) (key : String) : Bool :=
  !watch.stopped && watch.ownerRepo[owner]? != some key

def release (watch : RepoWatch) (owner : UInt64) : Option String × RepoWatch :=
  match watch.ownerRepo[owner]? with
  | none => (none, watch)
  | some repo =>
    let ownerRepo := watch.ownerRepo.erase owner
    let remaining := watch.repoOwners[repo]?.getD 1 - 1
    if remaining > 0 then
      (none, { watch with ownerRepo, repoOwners := watch.repoOwners.insert repo remaining })
    else
      (if watch.watched.contains repo then some repo else none,
        { watch with
          ownerRepo
          repoOwners := watch.repoOwners.erase repo
          watched := watch.watched.erase repo
          lastPushed := watch.lastPushed.erase repo
          pendingProbe := watch.pendingProbe.erase repo
          -- what an in-flight reading owes goes with the last owner
          rearmAfterProbe := watch.rearmAfterProbe.erase repo })

/-- What `note_project_key` does for an owner that is counted nowhere. -/
def retain (watch : RepoWatch) (owner : UInt64) (key : String) : Option String × RepoWatch :=
  let owners := watch.repoOwners[key]?.getD 0 + 1
  let first := owners = 1 ∧ ¬ watch.watched.contains key
  (if first then some key else none,
    { watch with
      ownerRepo := watch.ownerRepo.insert owner key
      repoOwners := watch.repoOwners.insert key owners
      watched := if owners = 1 then watch.watched.insert key else watch.watched })

def noteProjectKey (watch : RepoWatch) (owner : UInt64) (key : String) (isRepoRoot : Bool) :
    KeyEffects × RepoWatch :=
  if watch.wantsKey owner key then
    let (cancel, released) := watch.release owner
    if isRepoRoot then
      let (create, retained) := released.retain owner key
      (⟨cancel, create⟩, retained)
    else (⟨cancel, none⟩, released)
  else (⟨none, none⟩, watch)

def dropOwner (watch : RepoWatch) (owner : UInt64) : Option String × RepoWatch := watch.release owner

/-- `shutdown`. A reading in flight will still return, so what is in flight
and what it owes stay. -/
def shutdown (watch : RepoWatch) : List String × RepoWatch :=
  (watch.watched.toList,
    { watch with
      stopped := true
      ownerRepo := ∅
      repoOwners := ∅
      pendingProbe := ∅
      lastPushed := ∅
      watched := ∅ })

def sourceEvent (watch : RepoWatch) (repo : String) : Option UInt64 × RepoWatch :=
  if watch.stopped || !watch.watched.contains repo then (none, watch)
  else
    -- `wrapping_add`
    let probeGeneration := watch.probeGeneration + 1
    (some probeGeneration,
      { watch with probeGeneration, pendingProbe := watch.pendingProbe.insert repo probeGeneration })

def debounceFired (watch : RepoWatch) (repo : String) (generation : UInt64) (hasAudience : Bool) :
    ProbeVerdict × RepoWatch :=
  if watch.stopped || watch.pendingProbe[repo]? != some generation || !watch.watched.contains repo then
    (.stale, watch)
  else
    let fired := { watch with pendingProbe := watch.pendingProbe.erase repo }
    if !hasAudience then (.noAudience, fired)
    else if watch.probing.contains repo then
      (.deferred, { fired with rearmAfterProbe := watch.rearmAfterProbe.insert repo })
    else (.probe, { fired with probing := watch.probing.insert repo })

/-- Whether a reading is news, and the memory of pushes after it. -/
def news (watch : RepoWatch) (repo : String) (status : Option ProjectGitStatus) : Bool × RepoWatch :=
  match status with
  | none => (false, watch)
  | some status =>
    if watch.lastPushed[repo]? = some status then (false, watch)
    else (true, { watch with lastPushed := watch.lastPushed.insert repo status })

def probeFinished (watch : RepoWatch) (repo : String) (status : Option ProjectGitStatus) :
    FinishVerdict × RepoWatch :=
  let owedRearm := watch.rearmAfterProbe.contains repo
  let finished := { watch with
    probing := watch.probing.erase repo
    rearmAfterProbe := watch.rearmAfterProbe.erase repo }
  if watch.stopped || !watch.watched.contains repo then (⟨false, none⟩, finished)
  else
    let (push, told) := finished.news repo status
    if owedRearm then
      let (rearm, armed) := told.sourceEvent repo
      (⟨push, rearm⟩, armed)
    else (⟨push, none⟩, told)

end RepoWatch

/-! ## Calls and what they answer -/

inductive WatchCall where
  | noteProjectKey (owner : UInt64) (key : String) (isRepoRoot : Bool)
  | dropOwner (owner : UInt64)
  | shutdown
  | sourceEvent (repo : String)
  | debounceFired (repo : String) (generation : UInt64) (hasAudience : Bool)
  | probeFinished (repo : String) (status : Option ProjectGitStatus)
  deriving DecidableEq

inductive WatchAnswer where
  | keyed (effects : KeyEffects)
  | dropped (cancel : Option String)
  | stopped (cancelled : List String)
  | armed (generation : Option UInt64)
  | fired (verdict : ProbeVerdict)
  | finished (verdict : FinishVerdict)
  deriving DecidableEq

/-- A call and its answer. -/
def RepoWatch.step (watch : RepoWatch) : WatchCall → WatchAnswer × RepoWatch
  | .noteProjectKey owner key isRepoRoot =>
    let (effects, watch) := watch.noteProjectKey owner key isRepoRoot
    (.keyed effects, watch)
  | .dropOwner owner =>
    let (cancel, watch) := watch.dropOwner owner
    (.dropped cancel, watch)
  | .shutdown =>
    let (cancelled, watch) := watch.shutdown
    (.stopped cancelled, watch)
  | .sourceEvent repo =>
    let (generation, watch) := watch.sourceEvent repo
    (.armed generation, watch)
  | .debounceFired repo generation hasAudience =>
    let (verdict, watch) := watch.debounceFired repo generation hasAudience
    (.fired verdict, watch)
  | .probeFinished repo status =>
    let (verdict, watch) := watch.probeFinished repo status
    (.finished verdict, watch)

/-- The calls of a run with their answers, newest first. -/
abbrev WatchLog := List (WatchCall × WatchAnswer)

/-- A fold, and the calls it has answered. -/
structure WatchHistory where
  watch : RepoWatch := .new
  log : WatchLog := []

def WatchHistory.step (history : WatchHistory) (call : WatchCall) : WatchHistory where
  watch := (history.watch.step call).2
  log := (call, (history.watch.step call).1) :: history.log

/-! ## What a log says of one repo -/

/-- The streams an answer has the caller cancel (`false`) and create (`true`),
the last first. -/
def WatchAnswer.streams (repo : String) : WatchAnswer → List Bool
  | .keyed effects =>
    (if effects.create = some repo then [true] else []) ++ (if effects.cancel = some repo then [false] else [])
  | .dropped cancel => if cancel = some repo then [false] else []
  | .stopped cancelled => if repo ∈ cancelled then [false] else []
  | _ => []

namespace WatchLog

/-- The streams created and cancelled, the last first. -/
def streams (repo : String) : WatchLog → List Bool
  | [] => []
  | (_, answer) :: log => answer.streams repo ++ streams repo log

/-- The readings started and not returned. -/
def inFlight (repo : String) : WatchLog → Nat
  | [] => 0
  | (.debounceFired other _ _, .fired .probe) :: log => inFlight repo log + if other = repo then 1 else 0
  | (.probeFinished other _, _) :: log => inFlight repo log - if other = repo then 1 else 0
  | _ :: log => inFlight repo log

/-- The last status pushed since the repo's stream was last cancelled. -/
def lastPush (repo : String) : WatchLog → Option ProjectGitStatus
  | [] => none
  | (call, answer) :: log =>
    if false ∈ answer.streams repo then none
    else
      match call, answer with
      | .probeFinished other (some status), .finished ⟨true, _⟩ =>
        if other = repo then some status else lastPush repo log
      | _, _ => lastPush repo log

/-- Whether an edge arrived while the repo was watched, and since then its
stream was not cancelled, no reading of it started and no debounce of it fired
without an audience. -/
def unread (repo : String) : WatchLog → Bool
  | [] => false
  | (call, answer) :: log =>
    if false ∈ answer.streams repo then false
    else
      match call, answer with
      | .sourceEvent other, .armed (some _) => other = repo || unread repo log
      | .debounceFired other _ _, .fired .probe => other ≠ repo && unread repo log
      | .debounceFired other _ _, .fired .noAudience => other ≠ repo && unread repo log
      | _, _ => unread repo log

end WatchLog

end SlopDesk.Session
