/-
SlopDesk.Client.PaneDriver — the driver of one pane's session: its two
latches, its mailbox and its supervisor (`slopdesk-clientdriver`: `driver.rs`
and `state.rs`; the gates from `slopdesk-clientsession`: `gates.rs`).

Any thread calls; one supervisor runs what was posted, in order. A call that
raises a latch does so before it posts, and the supervisor is cut wherever it
takes the lock or reads a latch, so an `Event` of any thread falls between
any two of its acts. What a dial comes to is the event's.

Left out: sequence marks, staged output, acks, probes, resizes and what the
observer is told; the count of a campaign's attempts (when it gives up is the
event's); and the driver's shutdown.
-/
namespace SlopDesk.Client

/-! ## Gates -/

inductive Refusal where
  | closed | childExited | hostClosed
  deriving DecidableEq, Repr

def connectRefusal (closed childExited hostClosed : Bool) : Option Refusal :=
  if closed then some .closed
  else if childExited then some .childExited
  else if hostClosed then some .hostClosed
  else none

def adopts (closed paused cancelled superseded : Bool) : Bool :=
  !closed && !paused && !cancelled && !superseded

def announcesDrop (closed tearingDown childExited : Bool) : Bool := !closed && !tearingDown && !childExited

def campaignRuns (paused closed childExited hostClosed : Bool) : Bool :=
  !paused && !closed && !childExited && !hostClosed

/-! ## The driver -/

/-- What a connect answers: `Ok`, or a `ConnectError`. -/
inductive Answer where
  | ok | refused (refusal : Refusal) | noEndpoint | openFailed | noVerdict | superseded
  deriving DecidableEq, Repr

/-- `Command`. Beside a connect stands how many calls had raised a latch when
it was posted, if the pane was at rest then. -/
inductive Command (ε : Type) where
  | connect (endpoint : ε) (posted : Option Nat)
  | resume
  | pause
  | close
  | ended (epoch : Nat) (byHost : Bool)
  deriving DecidableEq, Repr

/-- Who waits for a dial: a posted connect, or a resume or retry. -/
inductive Asker where
  | connect (posted : Option Nat)
  | recovery
  deriving DecidableEq, Repr

/-- Where the supervisor stands in a command. -/
inductive Doing (ε : Type) where
  | idle
  /-- `resume`, before it clears the latch. -/
  | clearing (endpoint : ε)
  /-- `connect`, before its opening is read. -/
  | opening (endpoint : ε) (asker : Asker)
  /-- `connect`, before the transport it replaces is torn down. -/
  | opened (asker : Asker)
  | dialling (asker : Asker)
  /-- `connect`, its dial accepted, before it reads the closing latch. -/
  | accepted (asker : Asker)
  /-- `connect`, before it reads the pausing latch. -/
  | checking (closing : Bool) (asker : Asker)
  | adopting (asker : Asker)
  /-- `pause` or `close`, before the teardown. -/
  | leaving
  deriving DecidableEq, Repr

/-- What a dial comes to. -/
inductive Dial where
  | failed | noVerdict | accepted
  deriving DecidableEq, Repr

/-- `PaneDriver`, with the part of `Shared` and `State` that its latches touch. -/
structure PaneDriver (ε : Type) where
  /-- `config.reconnect` is set. -/
  reconnects : Bool
  pausing : Bool
  closing : Bool
  paused : Bool
  closed : Bool
  childExited : Bool
  hostClosed : Bool
  endpoint : Option ε
  epoch : Nat
  /-- The epoch of the adopted transport. -/
  transport : Option Nat
  campaign : Bool
  commands : List (Command ε)
  doing : Doing ε
  /-- Calls of `pause` and of `close` that raised their latch and have not posted. -/
  pauses : Nat
  closes : Nat
  /-- Calls of either so far. -/
  calls : Nat
  /-- What posted connects were answered, and whether the pane had been at rest since. -/
  answers : List (Answer × Bool)
  deriving DecidableEq

/-- What any thread does, and the supervisor. -/
inductive Event (ε : Type) where
  | raisePause | postPause
  | raiseClose | postClose
  | connect (endpoint : ε)
  | resume
  | exited
  | ended (epoch : Nat) (byHost : Bool)
  | take
  | act (dial : Dial)
  | retry (gaveUp : Bool)
  deriving DecidableEq, Repr

namespace PaneDriver

variable {ε : Type}

def new (reconnects : Bool) : PaneDriver ε where
  reconnects := reconnects
  pausing := false
  closing := false
  paused := false
  closed := false
  childExited := false
  hostClosed := false
  endpoint := none
  epoch := 0
  transport := none
  campaign := false
  commands := []
  doing := .idle
  pauses := 0
  closes := 0
  calls := 0
  answers := []

/-- A pause that is called and has not been run. -/
def PauseUnderway (d : PaneDriver ε) : Prop := 0 < d.pauses ∨ .pause ∈ d.commands

/-- A close that is called and has not been run. -/
def CloseUnderway (d : PaneDriver ε) : Prop := 0 < d.closes ∨ .close ∈ d.commands

/-- Neither paused nor closed, and no call underway that would make it so. -/
def AtRest (d : PaneDriver ε) : Prop :=
  d.paused = false ∧ d.closed = false ∧ d.pauses = 0 ∧ d.closes = 0 ∧ .pause ∉ d.commands ∧ .close ∉ d.commands

instance [DecidableEq ε] (d : PaneDriver ε) : Decidable d.PauseUnderway :=
  inferInstanceAs (Decidable (0 < d.pauses ∨ .pause ∈ d.commands))

instance [DecidableEq ε] (d : PaneDriver ε) : Decidable d.AtRest :=
  inferInstanceAs (Decidable (d.paused = false ∧ d.closed = false ∧ d.pauses = 0 ∧ d.closes = 0 ∧
    .pause ∉ d.commands ∧ .close ∉ d.commands))

def post (d : PaneDriver ε) (command : Command ε) : PaneDriver ε := { d with commands := d.commands ++ [command] }

def teardown (d : PaneDriver ε) : PaneDriver ε := { d with epoch := d.epoch + 1, transport := none }

def discard (d : PaneDriver ε) : PaneDriver ε := { d with epoch := d.epoch + 1 }

/-- The end of a connect. A retry goes on with its campaign only after a
failure that is worth another turn. -/
def finish (d : PaneDriver ε) (asker : Asker) (answer : Answer) : PaneDriver ε :=
  { d with
    doing := .idle
    campaign := d.campaign && (answer = .openFailed || answer = .noVerdict)
    answers := match asker with
      | .connect posted => (answer, posted = some d.calls) :: d.answers
      | .recovery => d.answers }

def ended (d : PaneDriver ε) (epoch : Nat) (byHost : Bool) : PaneDriver ε :=
  if d.epoch ≠ epoch then d
  else
    let d := { d with hostClosed := d.hostClosed || byHost }
    let announced := announcesDrop d.closed false d.childExited
    let runs := announced && campaignRuns d.paused d.closed d.childExited d.hostClosed
    { d with campaign := d.campaign || (runs && d.reconnects) }

/-- `run`: a command up to its first cut. -/
def run (d : PaneDriver ε) : Command ε → PaneDriver ε
  | .connect endpoint posted => { d with campaign := false, doing := .opening endpoint (.connect posted) }
  | .resume =>
    let d := { d with campaign := false }
    if !d.paused || d.closed || d.childExited then d
    else
      let d := { d with paused := false }
      match d.endpoint with
      | none => d
      | some endpoint => { d with doing := .clearing endpoint }
  | .pause =>
    let d := { d with campaign := false }
    if d.paused || d.closed then d else { d with paused := true, doing := .leaving }
  | .close =>
    let d := { d with campaign := false }
    if d.closed then d else { d with closed := true, doing := .leaving }
  | .ended epoch byHost => d.ended epoch byHost

/-- The supervisor's next act in a command. -/
def act (d : PaneDriver ε) (dial : Dial) : PaneDriver ε :=
  match d.doing with
  | .idle => d
  | .clearing endpoint => { d with pausing := false, doing := .opening endpoint .recovery }
  | .opening endpoint asker =>
    match connectRefusal d.closed d.childExited d.hostClosed with
    | some refusal => d.finish asker (.refused refusal)
    | none => { d with endpoint := some endpoint, doing := .opened asker }
  | .opened asker => { d.teardown with epoch := d.epoch + 2, doing := .dialling asker }
  | .dialling asker =>
    match dial with
    | .failed => d.finish asker .openFailed
    | .noVerdict => d.discard.finish asker .noVerdict
    | .accepted => { d with doing := .accepted asker }
  | .accepted asker => { d with doing := .checking d.closing asker }
  | .checking closing asker =>
    if adopts closing d.pausing false false then { d with doing := .adopting asker }
    else d.discard.finish asker .superseded
  | .adopting asker => { d with transport := some d.epoch }.finish asker .ok
  | .leaving => { d.teardown with doing := .idle }

/-- `attempt_retry`, up to its first cut. -/
def retry (d : PaneDriver ε) (gaveUp : Bool) : PaneDriver ε :=
  if !campaignRuns d.paused d.closed d.childExited d.hostClosed then { d with campaign := false }
  else
    match d.endpoint with
    | none => { d with campaign := false }
    | some endpoint =>
      if gaveUp then { d with campaign := false } else { d with doing := .opening endpoint .recovery }

/-- One event. The supervisor takes a command or a turn of its campaign when
it is in none. -/
def step [DecidableEq ε] (d : PaneDriver ε) : Event ε → PaneDriver ε
  | .raisePause => { d with pausing := true, pauses := d.pauses + 1, calls := d.calls + 1 }
  | .postPause => if d.pauses = 0 then d else { d.post .pause with pauses := d.pauses - 1 }
  | .raiseClose => { d with closing := true, closes := d.closes + 1, calls := d.calls + 1 }
  | .postClose => if d.closes = 0 then d else { d.post .close with closes := d.closes - 1 }
  | .connect endpoint => d.post (.connect endpoint (if d.AtRest then some d.calls else none))
  | .resume => d.post .resume
  | .exited => { d with childExited := true }
  | .ended epoch byHost => d.post (.ended epoch byHost)
  | .take =>
    match d.doing, d.commands with
    | .idle, command :: rest => { d with commands := rest }.run command
    | _, _ => d
  | .act dial => d.act dial
  | .retry gaveUp => if d.doing = .idle && d.campaign then d.retry gaveUp else d

end PaneDriver

end SlopDesk.Client
