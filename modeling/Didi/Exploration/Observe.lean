import Mathlib.Algebra.Order.Field.Rat
import Mathlib.Algebra.Order.Group.Unbundled.Abs

/-!
# An exploration observes its frames

* `actionForSlot` : the schedule of the actions, drawn from the seed;
* `observeReading` : what one reading of a probe says of movement, and what is tracked of the probe;
* `SceneExploration.observe` : one frame, and whether the run is finished;
* `SceneExploration.run` : the frames of a run.

Readings are the rationals that the doubles stand for, times are milliseconds.
-/

namespace Didi.Exploration

structure ExplorationProbe where
  name : String
  contextNode : String := ""
  expression : String

structure SceneExplorationRequest where
  durationMs : Int := 5000
  actionHoldMs : Int := 250
  stuckMs : Int := 3000
  movementEpsilon : Rat := 1 / 1000
  pauseOnStuck : Bool := true
  stopOnEngineError : Bool := true
  seed : UInt64 := 1
  actions : List String := []
  probes : List ExplorationProbe := []

/-- No value when it could not be read. -/
structure ExplorationReading where
  value : Option Rat := none
  readError : String := ""

structure ExplorationSample where
  readings : List ExplorationReading
  engineErrors : Int := 0

def kMaxExplorationStuckIntervals : Nat := 16

structure Tracked where
  readings : Nat := 0
  minimum : Rat := 0
  maximum : Rat := 0
  last : Rat := 0
  seen : Bool := false
  moved : Bool := false
  lastReadError : String := ""

structure StuckInterval where
  startedMs : Int
  endedMs : Int
  slot : Int
deriving DecidableEq

structure SceneExploration where
  request : SceneExplorationRequest
  tracked : List Tracked
  slotsHeld : List Nat
  intervals : List StuckInterval := []
  intervalsTruncated : Bool := false
  lastMovementMs : Int := 0
  stillSince : Bool := false
  elapsedMs : Int := 0
  engineErrors : Int := 0
  frames : Nat := 0
  stoppedOnStuck : Bool := false
  stoppedOnEngineError : Bool := false

/-! ## The schedule -/

/-- Adding and multiplying wrap. -/
def mixed (seed slot : UInt64) : UInt64 :=
  let value := seed ^^^ (slot + 0x9e3779b97f4a7c15 + (seed <<< (6 : UInt64)) + (seed >>> (2 : UInt64)))
  let value := (value ^^^ (value >>> (30 : UInt64))) * 0xbf58476d1ce4e5b9
  let value := (value ^^^ (value >>> (27 : UInt64))) * 0x94d049bb133111eb
  value ^^^ (value >>> (31 : UInt64))

def slotAt (request : SceneExplorationRequest) (elapsedMs : Int) : Int :=
  if elapsedMs < 0 then 0 else elapsedMs.tdiv request.actionHoldMs

def actionForSlot (request : SceneExplorationRequest) (slot : Int) : Nat :=
  if request.actions.length = 1 then 0
  else (mixed request.seed (UInt64.ofInt slot)).toNat % request.actions.length

/-! ## A frame -/

/-- Whether a reading moved, and what is tracked of its probe after it. -/
def observeReading (epsilon : Rat) (tracked : Tracked) (reading : ExplorationReading) : Bool × Tracked :=
  match reading.value with
  | none =>
    -- a probe that could not be read says nothing, and is not counted as still
    (true, if reading.readError ≠ "" then { tracked with lastReadError := reading.readError } else tracked)
  | some value =>
    let after := { tracked with last := value, readings := tracked.readings + 1 }
    if !tracked.seen then (false, { after with seen := true, minimum := value, maximum := value })
    else
      let after := { after with minimum := min tracked.minimum value, maximum := max tracked.maximum value }
      if epsilon < |value - tracked.last| then (true, { after with moved := true }) else (false, after)

/-- The probes that the sample has readings of. -/
def observeReadings (epsilon : Rat) : List Tracked → List ExplorationReading → Bool × List Tracked
  | tracked :: others, reading :: readings =>
    let (moved, after) := observeReading epsilon tracked reading
    let (othersMoved, othersAfter) := observeReadings epsilon others readings
    (moved || othersMoved, after :: othersAfter)
  | tracked, _ => (false, tracked)

namespace SceneExploration

def new (request : SceneExplorationRequest) : SceneExploration where
  request
  tracked := request.probes.map fun _ => {}
  slotsHeld := request.actions.map fun _ => 0

def stopped (s : SceneExploration) : Bool := s.stoppedOnStuck || s.stoppedOnEngineError

/-- The frame is counted, and its readings are tracked. -/
def count (s : SceneExploration) (elapsedMs : Int) (sample : ExplorationSample) : SceneExploration :=
  { s with
    elapsedMs
    frames := s.frames + 1
    engineErrors := sample.engineErrors
    slotsHeld := s.slotsHeld.modify (actionForSlot s.request (slotAt s.request elapsedMs)) (· + 1)
    tracked := (observeReadings s.request.movementEpsilon s.tracked sample.readings).2 }

/-- The still clock. It runs from the last frame that moved, not from the first still one. -/
def clock (s : SceneExploration) (elapsedMs : Int) (moved : Bool) : SceneExploration :=
  if moved then { s with lastMovementMs := elapsedMs, stillSince := false } else { s with stillSince := true }

/-- A stuck interval ends here, and the clock begins again. -/
def closeInterval (s : SceneExploration) (elapsedMs : Int) : SceneExploration :=
  let s :=
    if s.intervals.length < kMaxExplorationStuckIntervals then
      { s with intervals := s.intervals ++ [⟨s.lastMovementMs, elapsedMs, slotAt s.request elapsedMs⟩] }
    else { s with intervalsTruncated := true }
  { s with lastMovementMs := elapsedMs, stillSince := false }

/-- Whether the run is finished, and the run after the frame. -/
def observe (s : SceneExploration) (elapsedMs : Int) (sample : ExplorationSample) : Bool × SceneExploration :=
  if s.stopped then (true, s)
  else
    let moved := (observeReadings s.request.movementEpsilon s.tracked sample.readings).1
    let s := (s.count elapsedMs sample).clock elapsedMs moved
    let closes := s.stillSince && s.request.stuckMs ≤ elapsedMs - s.lastMovementMs
    let s := if closes then s.closeInterval elapsedMs else s
    if closes && s.request.pauseOnStuck then (true, { s with stoppedOnStuck := true })
    else if s.request.stopOnEngineError && 0 < sample.engineErrors then (true, { s with stoppedOnEngineError := true })
    else (s.request.durationMs ≤ elapsedMs, s)

/-- A frame of the run. -/
structure Frame where
  elapsedMs : Int
  sample : ExplorationSample

/-- The run after these frames. -/
def run (request : SceneExplorationRequest) (frames : List Frame) : SceneExploration :=
  frames.foldl (fun s frame => (s.observe frame.elapsedMs frame.sample).2) (new request)

end SceneExploration

end Didi.Exploration
