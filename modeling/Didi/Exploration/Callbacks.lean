import Mathlib.Data.Finset.Insert
import Mathlib.Data.Finset.Erase
import Didi.Exploration.Observe

/-!
# The frame callbacks of an exploration

* `World` : the pending run, the callbacks in progress, and the actions that are down in the engine;
* `Act` : a locked section or an engine call of the innermost callback, a callback that begins, a run scheduled, a shutdown;
* `step` : what each of them does.

A callback takes the lock, lets go of it for each call into the engine, and takes it again. An engine call can pump the
main loop, and a callback that begins in it runs to its end before the one around it goes on. Nested pumps take no
commands, so a run is scheduled only while no callback is in progress; a session can be shut down at any time. The engine
applies every release it is sent. A press it answers `queued` waits for the release queued behind it, and the two leave
the action up.
-/

namespace Didi.Exploration

/-- The answer of the engine to a press. -/
inductive Press
  | accepted
  | queued
  | refused
deriving DecidableEq

/-- `id` stands for the control of the command. -/
structure PendingSceneExploration where
  id : Nat
  exploration : SceneExploration
  awaitingNextCallback : Bool := true
  heldAction : Option Nat := none
  heldSlot : Int := -1

namespace PendingSceneExploration

def request (p : PendingSceneExploration) : SceneExplorationRequest := p.exploration.request

def heldName (p : PendingSceneExploration) : Option String := p.heldAction.bind (p.request.actions[·]?)

end PendingSceneExploration

/-- How far a callback is. -/
inductive Stage
  | release
  | press
  | releaseQueued
  | record (answer : Press)
  | sample
  | releaseLast (completed : PendingSceneExploration)
  | answer (completed : PendingSceneExploration)

structure Callback where
  runningFor : Nat
  elapsed : Int
  slot : Int
  previouslyHeld : Option Nat
  actionNow : Nat
  actionNowName : String
  stage : Stage

/-- The callbacks in progress are listed from the innermost on. `clock` is the elapsed time that the last one read, and
`ended` are the runs that were answered or cancelled. -/
structure World where
  pending : Option PendingSceneExploration := none
  callbacks : List Callback := []
  down : Finset String := ∅
  scheduled : Nat := 0
  ended : List Nat := []
  clock : Int := 0

inductive Act
  | schedule (request : SceneExplorationRequest)
  | shutdown
  | begin (elapsed : Int)
  | release
  | press (answer : Press)
  | releaseQueued
  | record
  | observe (sample : ExplorationSample)
  | releaseLast
  | answer

/-- The engine applies a release. -/
def bringUp (down : Finset String) (name : Option String) : Finset String :=
  match name with
  | some name => down.erase name
  | none => down

namespace World

/-- A run is scheduled, unless one is pending. A request has an action, or it is refused before. -/
def schedule (request : SceneExplorationRequest) (w : World) : Option World :=
  if request.actions = [] then none
  else
    match w.pending with
    | some _ => some w
    | none => some { w with
        pending := some { id := w.scheduled, exploration := .new request }
        scheduled := w.scheduled + 1 }

def cancelPendingCommands (w : World) : World :=
  match w.pending with
  | none => w
  | some p => { w with pending := none, down := bringUp w.down p.heldName, ended := w.ended ++ [p.id] }

/-- The first locked section of a callback. -/
def begin (elapsed : Int) (w : World) : World :=
  match w.pending with
  | none => w
  | some p =>
    if p.awaitingNextCallback then { w with pending := some { p with awaitingNextCallback := false } }
    else
      let slot := slotAt p.request elapsed
      let actionNow := actionForSlot p.request slot
      let callback : Callback := {
        runningFor := p.id
        elapsed, slot, actionNow
        previouslyHeld := p.heldAction
        actionNowName := p.request.actions.getD actionNow ""
        stage := if slot = p.heldSlot then .sample else .release }
      { w with clock := elapsed, callbacks := callback :: w.callbacks }

section Innermost
variable (c : Callback) (outer : List Callback)

/-- The innermost callback goes on. -/
def next (stage : Stage) (w : World) : World := { w with callbacks := { c with stage } :: outer }

/-- The innermost callback is over. -/
def leave (w : World) : World := { w with callbacks := outer }

/-- The actions are those of the run that is pending now. -/
def releaseExplorationAction (w : World) (actionIndex : Nat) : World :=
  match w.pending with
  | none => w
  | some p => { w with down := bringUp w.down p.request.actions[actionIndex]? }

def release (w : World) : World :=
  next c outer .press <|
    match c.previouslyHeld with
    | some i => w.releaseExplorationAction i
    | none => w

def press (answer : Press) (w : World) : World :=
  match answer with
  | .accepted => next c outer (.record .accepted) { w with down := insert c.actionNowName w.down }
  | .queued => next c outer .releaseQueued w
  | .refused => next c outer (.record .refused) w

def releaseQueued (w : World) : World :=
  next c outer (.record .queued) { w with down := bringUp w.down c.actionNowName }

/-- The locked section after the press. A press that did not land ends the run. -/
def record (answer : Press) (w : World) : World :=
  match w.pending with
  | none => leave outer w
  | some p =>
    if p.id ≠ c.runningFor then leave outer w
    else
      match answer with
      | .accepted =>
        next c outer .sample { w with pending := some { p with heldAction := some c.actionNow, heldSlot := c.slot } }
      | _ => leave outer { w with pending := none, ended := w.ended ++ [p.id] }

def observe (sample : ExplorationSample) (w : World) : World :=
  match w.pending with
  | none => leave outer w
  | some p =>
    if p.id ≠ c.runningFor then leave outer w
    else
      let (finished, exploration) := p.exploration.observe c.elapsed sample
      if finished then next c outer (.releaseLast { p with exploration }) { w with pending := none }
      else leave outer { w with pending := some { p with exploration } }

def releaseLast (completed : PendingSceneExploration) (w : World) : World :=
  next c outer (.answer completed) { w with down := bringUp w.down completed.heldName }

def answer (completed : PendingSceneExploration) (w : World) : World :=
  leave outer { w with ended := w.ended ++ [completed.id] }

end Innermost

/-- No value where the act does not come next. -/
def step (w : World) (act : Act) : Option World :=
  match act, w.callbacks with
  | .schedule request, [] => w.schedule request
  | .shutdown, _ => some w.cancelPendingCommands
  | .begin elapsed, _ => some (w.begin elapsed)
  | act, c :: outer =>
    match act, c.stage with
    | .release, .release => some (w.release c outer)
    | .press answer, .press => some (w.press c outer answer)
    | .releaseQueued, .releaseQueued => some (w.releaseQueued c outer)
    | .record, .record answer => some (w.record c outer answer)
    | .observe sample, .sample => some (w.observe c outer sample)
    | .releaseLast, .releaseLast completed => some (w.releaseLast c outer completed)
    | .answer, .answer completed => some (w.answer outer completed)
    | _, _ => none
  | _, [] => none

/-- An act that does not come next is left out. -/
def perform (w : World) (act : Act) : Bool × World :=
  match w.step act with
  | some w' => (true, w')
  | none => (false, w)

end World

end Didi.Exploration
