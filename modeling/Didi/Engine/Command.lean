import Mathlib.Data.List.Basic

/-!
# The life of one engine command

* `CommandControl` : the two compare-and-set flags of a command;
* `Fulfil` : a call of `fulfillCommand` under way, with the compare-and-set or the store that comes before it;
* `Requester` : where `awaitRuntimeCommand` is;
* `Slot` : where a command waits that completes frames after it started;
* `Command` : all that the parties hold of one command. Each function below is one atomic operation of a party, and
  what the party does at once with its outcome.
-/

namespace Didi.Engine

inductive CommandState
  | pending
  | running
  | cancelled
  | completed
  deriving DecidableEq

structure CommandControl where
  state : CommandState := .pending
  responseClaimed : Bool := false
  deriving DecidableEq

namespace CommandControl

def tryStart (control : CommandControl) : Bool × CommandControl :=
  if control.state = .pending then (true, { control with state := .running }) else (false, control)

def tryCancelPending (control : CommandControl) : Bool × CommandControl :=
  if control.state = .pending then (true, { control with state := .cancelled }) else (false, control)

def tryCancelRunning (control : CommandControl) : Bool × CommandControl :=
  if control.state = .running then (true, { control with state := .cancelled }) else (false, control)

def markCompleted (control : CommandControl) : CommandControl := { control with state := .completed }

def tryClaimResponse (control : CommandControl) : Bool × CommandControl :=
  if control.responseClaimed then (false, control) else (true, { control with responseClaimed := true })

end CommandControl

/-- What a command can be answered. -/
inductive Answer
  -- by postCommand: 503 bridge_not_ready
  | bridgeNotReady
  -- by the main thread, before the command started: the rejection of the session kind, and 504 command_cancelled
  | sessionRejected
  | commandCancelled
  -- by the requester: not_started and unknown_outcome
  | notStarted
  | unknownOutcome
  -- by shutdown: 503 live_session_ended to a queued command, and to one that runs
  | sessionEnded
  | interrupted
  -- a profiler read that read nothing, by a frame or by shutdown: not_started
  | notSampled
  -- what the body came to, its refusals and its exception among it
  | result
  deriving DecidableEq

/-- The answers that say that the command was not started. -/
def Answer.beforeExecution : Answer → Bool
  | .bridgeNotReady | .sessionRejected | .commandCancelled | .notStarted | .sessionEnded => true
  | _ => false

inductive Party
  | poster
  | main
  | frame
  | shutdown
  | requester
  deriving DecidableEq

/-- An answer under way: the running command is about to be cancelled, or marked as completed, or the response is about
to be claimed, or the promise to be set. A detached command that is finished is only marked. -/
inductive Stage
  | cancelling (answer : Answer)
  | marking (answer : Option Answer)
  | claiming (answer : Answer)
  | setting (answer : Answer)
  deriving DecidableEq

def Stage.answer : Stage → Option Answer
  | .cancelling answer | .claiming answer | .setting answer => some answer
  | .marking answer => answer

def Stage.isSetting : Stage → Bool
  | .setting _ => true
  | _ => false

def Stage.isCancelling : Stage → Bool
  | .cancelling _ => true
  | _ => false

structure Fulfil where
  party : Party
  stage : Stage
  deriving DecidableEq

inductive SlotKind
  | step
  | projectScan
  | sceneCreate
  | refresh
  | reimport
  | profiler
  | watch
  | exploration
  | capture
  | scriptCall
  deriving DecidableEq

/-- A parked command. A detached one is answered when it is parked. -/
structure Slot where
  kind : SlotKind
  detached : Bool := false
  -- a frame of it has done something
  sampled : Bool := false
  deriving DecidableEq

/-- Where the command is before its body runs. -/
inductive Place
  | new
  | queued
  | taken (rejected : Bool)
  | ending
  | gone
  deriving DecidableEq

/-- How far the main thread is with the body. -/
inductive Body
  | none
  | plain
  | parked (detached : Bool)
  deriving DecidableEq

/-- Where `awaitRuntimeCommand` is, by the atomic operation that it does next. -/
inductive Requester
  | idle
  | waiting
  -- the deadline is past: tryCancelPending, then claim and set not_started
  | timedOut
  | claimingNotStarted
  | settingNotStarted
  -- tryCancelRunning, then claim and set unknown_outcome
  | cancellingRunning
  | claimingUnknown
  | settingUnknown
  -- the last wait, and the get of a promise that is claimed
  | lastWait
  | getting
  | answered (answer : Answer)
  deriving DecidableEq

structure Command where
  method : String := ""
  control : CommandControl := {}
  promise : Option Answer := none
  place : Place := .new
  body : Body := .none
  slot : Option Slot := none
  fulfils : List Fulfil := []
  requester : Requester := .idle
  -- how often the promise was set, who claimed the response, how often the body started, how many frames it worked in
  sets : Nat := 0
  claims : List Party := []
  starts : Nat := 0
  works : Nat := 0
  deriving DecidableEq

namespace Command

/-- `set_value`; a second one would throw. -/
def setPromise (c : Command) (answer : Answer) : Command :=
  { c with promise := c.promise.or (some answer), sets := c.sets + 1 }

/-- The compare-and-set of the claim, by `party`. -/
def claim (c : Command) (party : Party) : Bool × Command :=
  let (won, control) := c.control.tryClaimResponse
  (won, { c with control, claims := if won then c.claims ++ [party] else c.claims })

def push (c : Command) (fulfil : Fulfil) : Command := { c with fulfils := c.fulfils ++ [fulfil] }

/-! ### postCommand -/

def accept (method : String) : Command := { method, place := .queued, requester := .waiting }

/-- The bridge is not ready: marked, claimed and answered before anyone has the ticket. -/
def refuse (method : String) : Command where
  method := method
  control := { state := .completed, responseClaimed := true }
  promise := some .bridgeNotReady
  place := .gone
  requester := .waiting
  sets := 1
  claims := [.poster]

/-! ### processQueue -/

def take (rejected : Bool) (c : Command) : Command := { c with place := .taken rejected }

/-- The session kind does not take the method. -/
def reject (c : Command) : Command :=
  { c with place := .gone }.push ⟨.main, .claiming .sessionRejected⟩

def start (c : Command) : Command :=
  let (won, control) := c.control.tryStart
  if won then { c with control, place := .gone, body := .plain, starts := c.starts + 1 }
  else { c with place := .gone }.push ⟨.main, .claiming .commandCancelled⟩

/-- The body ends with an answer, a detached one with its acceptance; it may take its slot back. -/
def complete (unpark : Bool) (c : Command) : Command :=
  { c with body := .none, slot := if unpark then none else c.slot }.push ⟨.main, .marking (some .result)⟩

/-- The body waits for later frames. -/
def park (kind : SlotKind) (detached : Bool) (c : Command) : Command :=
  match c.body with
  | .plain => { c with body := .parked detached, slot := some { kind, detached } }
  | _ => c

/-- The body leaves its answer to later frames. -/
def leave (c : Command) : Command :=
  match c.body with
  | .parked false => { c with body := .none }
  | _ => c

/-! ### Frames of a parked command -/

def work (c : Command) : Command :=
  match c.slot with
  | some slot => { c with slot := some { slot with sampled := true }, works := c.works + 1 }
  | none => c

/-- What ends a slot answers: nothing for a detached command, and `not_started` for a profiler read that fails before
its first sample. -/
def slotAnswer (slot : Slot) (failed : Bool) (answer : Answer) : Option Answer :=
  if slot.detached then none
  else if slot.kind = .profiler ∧ slot.sampled = false ∧ failed then some .notSampled
  else some answer

def finish (failed : Bool) (c : Command) : Command :=
  match c.slot with
  | some slot =>
    if slot.detached ∧ slot.kind = .projectScan then { c with slot := none }
    else { c with slot := none }.push ⟨.frame, .marking (slotAnswer slot failed .result)⟩
  | none => c

/-! ### fulfillCommand -/

/-- The next atomic operation of the answer at `i`. -/
def fulfil (i : Nat) (c : Command) : Command :=
  match c.fulfils[i]? with
  | none => c
  | some f =>
    let rest := c.fulfils.eraseIdx i
    match f.stage with
    | .cancelling answer =>
      let (won, control) := c.control.tryCancelRunning
      { c with control, fulfils := if won then rest ++ [⟨f.party, .claiming answer⟩] else rest }
    | .marking answer =>
      { c with
        control := c.control.markCompleted
        fulfils := rest ++ (answer.map fun answer => ⟨f.party, .claiming answer⟩).toList }
    | .claiming answer =>
      let (won, claimed) := c.claim f.party
      { claimed with fulfils := if won then rest ++ [⟨f.party, .setting answer⟩] else rest }
    | .setting answer => { c.setPromise answer with fulfils := rest }

/-! ### cancelPendingCommands -/

/-- Out of the queue, into the hands of shutdown. -/
def toEnding (c : Command) : Command := { c with place := .ending }

def endQueued (c : Command) : Command :=
  let (won, control) := c.control.tryCancelPending
  let gone : Command := { c with place := .gone, control }
  if won then gone.push ⟨.shutdown, .claiming .sessionEnded⟩ else gone

/-- Shutdown takes the slot. A scene that was saved and a file that was refreshed are answered as they stand; captures
and script calls are left to their requesters. -/
def endSlot (c : Command) : Command :=
  match c.slot with
  | none => c
  | some slot =>
    match slot.kind with
    | .capture | .scriptCall => c
    | .sceneCreate | .refresh =>
      { c with slot := none }.push ⟨.shutdown, .marking (slotAnswer slot true .result)⟩
    | .projectScan =>
      if slot.detached then { c with slot := none }
      else { c with slot := none }.push ⟨.shutdown, .cancelling .interrupted⟩
    | _ => { c with slot := none }.push
        ⟨.shutdown, .cancelling ((slotAnswer slot true .interrupted).getD .interrupted)⟩

/-! ### awaitRuntimeCommand -/

/-- The wait runs out while the promise is not set. -/
def deadline (c : Command) : Command :=
  if c.requester = .waiting ∧ c.promise = none then { c with requester := .timedOut } else c

/-- The last wait runs out. -/
def giveUp (c : Command) : Command :=
  if c.requester = .lastWait ∧ c.promise = none then { c with requester := .answered .unknownOutcome } else c

/-- The next atomic operation of the requester. A wait and a get go on when the promise is set. -/
def await (c : Command) : Command :=
  match c.requester with
  | .idle => c
  | .waiting | .lastWait | .getting =>
    match c.promise with
    | some answer => { c with requester := .answered answer }
    | none => c
  | .timedOut =>
    let (won, control) := c.control.tryCancelPending
    { c with control, requester := if won then .claimingNotStarted else .cancellingRunning }
  | .claimingNotStarted =>
    let (won, claimed) := c.claim .requester
    { claimed with requester := if won then .settingNotStarted else .getting }
  | .settingNotStarted => { c.setPromise .notStarted with requester := .getting }
  | .cancellingRunning => { c with control := c.control.tryCancelRunning.2, requester := .claimingUnknown }
  | .claimingUnknown =>
    let (won, claimed) := c.claim .requester
    { claimed with requester := if won then .settingUnknown else .lastWait }
  | .settingUnknown => { c.setPromise .unknownOutcome with requester := .getting }
  | .answered _ => c

/-- One atomic operation on the command, where a party is at that point. -/
inductive Step : Command → Command → Prop
  | accept (method : String) : Step {} (accept method)
  | refuse (method : String) : Step {} (refuse method)
  | take {c : Command} (rejected : Bool) (h : c.place = .queued) : Step c (c.take rejected)
  | reject {c : Command} (h : c.place = .taken true) : Step c c.reject
  | start {c : Command} (h : c.place = .taken false) : Step c c.start
  | complete {c : Command} (unpark : Bool) (h : c.body ≠ .none) : Step c (c.complete unpark)
  | park (c : Command) (kind : SlotKind) (detached : Bool) : Step c (c.park kind detached)
  | leave (c : Command) : Step c c.leave
  | work (c : Command) : Step c c.work
  | finish (c : Command) (failed : Bool) : Step c (c.finish failed)
  | fulfil (c : Command) (i : Nat) : Step c (c.fulfil i)
  | toEnding {c : Command} (h : c.place = .queued) : Step c c.toEnding
  | endQueued {c : Command} (h : c.place = .ending) : Step c c.endQueued
  | endSlot (c : Command) : Step c c.endSlot
  | deadline (c : Command) : Step c c.deadline
  | giveUp (c : Command) : Step c c.giveUp
  | await (c : Command) : Step c c.await

end Command

end Didi.Engine
