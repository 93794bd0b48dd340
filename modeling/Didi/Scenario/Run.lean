import Mathlib.Data.List.Infix
import Didi.Common
import Didi.Json.Pointer
import Didi.Json.Doubles
import Didi.Lib.Locked

/-!
# The run of a scenario

* `ScenarioSpec`, `ScenarioStep` : what an author wrote;
* `Driver` : the game; each call may answer, fail or throw, and each poll may throw, on all that happened before;
* `Event` : what happens in a run, in order;
* `judgeValue`, `readEvaluation`, `readPage` : what an answer of the game says. The two last throw on an answer of
  another shape;
* `RunState` : the report as it grows, with what happened so far;
* `runStep`, `runSteps` : the steps, up to the first that fails or is interrupted;
* `finish` : the verdict, from the outcomes of the steps, the first failure and the teardown;
* `runScenario` : launch, steps, teardown, verdict.

A call to the driver is guarded: an exception of it is an error of the call. The polls and the reading of an answer
are not, and their exceptions end the run.
-/

namespace Didi.Scenario

inductive Kind
  | wait
  | waitUntil
  | press
  | assertValue
  | assertOutput
  | capture
  deriving DecidableEq

def Kind.name : Kind → String
  | .wait => "wait"
  | .waitUntil => "wait_until"
  | .press => "press"
  | .assertValue => "assert"
  | .assertOutput => "assert_output"
  | .capture => "capture"

/-- A bound of a value: the double, what `dump()` prints of it and what a stream prints of it. -/
structure Bound where
  value : Rat
  text : String
  shown : String

structure ScenarioStep where
  kind : Kind := .wait
  label : String := ""
  frames : Nat := 0
  action : String := ""
  expression : String := ""
  contextNode : String := ""
  minimum : Option Bound := none
  maximum : Option Bound := none
  text : String := ""
  level : String := ""
  absent : Bool := false

namespace ScenarioStep

def isAssertion (step : ScenarioStep) : Bool := step.kind = .assertValue || step.kind = .assertOutput

def provesSomething (step : ScenarioStep) : Bool :=
  step.kind = .assertValue || (step.kind = .assertOutput && !step.absent)

end ScenarioStep

structure ScenarioSpec where
  name : String
  scenePath : String
  headless : Bool := true
  timeoutSeconds : Int := 60
  steps : List ScenarioStep

def kMaxFramesPerStepCall : Nat := 60

/-! ### The driver -/

/-- An exception, with its `what()` where it is a standard one. -/
abbrev Thrown := Option String

inductive Call
  | launch
  | step (frames : Nat)
  | press (action : String) (pressed : Bool)
  | evaluate (expression contextNode : String)
  | readOutput (cursor : Nat) (minimumLevel : String)
  | capture (stepIndex : Nat)
  | teardown
  deriving DecidableEq

inductive Reply
  | answer (body : Json)
  | refused (error : Error)
  | threw (thrown : Thrown)

inductive Stage
  | launch
  | step
  | assertion
  | cancelled
  | timeout
  | teardown
  | run
  deriving DecidableEq

def Stage.name : Stage → String
  | .launch => "launch"
  | .step => "step"
  | .assertion => "assertion"
  | .cancelled => "cancelled"
  | .timeout => "timeout"
  | .teardown => "teardown"
  | .run => "run"

inductive Event
  | started (index : Nat)
  -- a call, with the step that made it
  | called (step : Option Nat) (call : Call) (reply : Reply)
  | polledCancelled (reply : Except Thrown Bool)
  | polledElapsed (reply : Except Thrown Int)
  | failed (stage : Stage)

/-- The game, as what it replies after the events so far. -/
structure Driver where
  reply : List Event → Call → Reply
  cancelled : List Event → Except Thrown Bool
  elapsedMs : List Event → Except Thrown Int

/-- A call whose exception is an error like any other. -/
def guarded : Reply → Except Error Json
  | .answer body => .ok body
  | .refused error => .error error
  | .threw (some what) => .error (.internal ("The scenario driver failed: " ++ what))
  | .threw none => .error (.internal "The scenario driver failed with an unknown exception")

/-! ### What an answer says -/

structure ValueJudgement where
  held : Bool := false
  reason : String := ""

def judgeValue (value : Json) (minimum maximum : Option Bound) : ValueJudgement :=
  if minimum.isSome || maximum.isSome then
    match value with
    | .null => { reason := "no_value" }
    | value =>
      match value.double with
      | none => { reason := "not_a_number" }
      | some number =>
        if ∃ low ∈ minimum, number < low.value then { reason := "below_minimum" }
        else if ∃ high ∈ maximum, high.value < number then { reason := "above_maximum" }
        else { held := true }
  else
    match value with
    | .boolean true => { held := true }
    | .boolean false => { reason := "false" }
    | .null => { reason := "no_value" }
    | _ => { reason := "not_a_boolean" }

def shorten (limit kept : Nat) (text : String) : String :=
  if limit < text.utf8ByteSize then utf8Prefix text kept ++ "..." else text

def shortValue (value : Json) : String := shorten 120 117 value.dump

def judgementSentence (judged : ValueJudgement) (value : Json) (valueType : String) (step : ScenarioStep) : String :=
  if judged.reason = "below_minimum" then
    "the value was " ++ shortValue value ++ ", below the minimum " ++ (step.minimum.elim "" Bound.shown)
  else if judged.reason = "above_maximum" then
    "the value was " ++ shortValue value ++ ", above the maximum " ++ (step.maximum.elim "" Bound.shown)
  else if judged.reason = "not_a_number" then
    "the value was a " ++ (if valueType = "" then "non-number" else valueType) ++
      ", and minimum and maximum compare a number; read one component, such as node.get(\"position\").y"
  else if judged.reason = "no_value" then "the expression produced no value (null)"
  else if judged.reason = "false" then "the expression was false"
  else if judged.reason = "not_a_boolean" then
    "the value was " ++ shortValue value ++ ", and with no minimum or maximum the expression has to be true or false"
  else judged.reason

/-- The value and the type of an answer of the sandbox. -/
def readEvaluation (answer : Json) : Except JsonException (Json × String) :=
  if answer.isObject then do
    let value ← Json.value "value" .null answer
    let valueType ← answer.valueString "value_type" ""
    return (value, valueType)
  else return (.null, "")

/-- What a loop over a value goes through. -/
def elements : Json → List Json
  | .array elements => elements
  | .object members => members.map Prod.snd
  | .null => []
  | value => [value]

/-- `get<uint64_t>()`. -/
def getUnsigned (value : Json) : Except JsonException Nat := do
  let i ← value.getInteger
  return (i % 2 ^ 64).toNat

def contains (text part : String) : Bool := decide (part.toList <:+: text.toList)

/-- The first record that holds the text of the step, as the report shows it. -/
def findMatch (step : ScenarioStep) : List Json → Except JsonException (Option Json)
  | [] => return none
  | record :: records => do
    let message ← record.valueString "message" ""
    if step.text = "" ∨ contains message step.text then
      let sequence ← Json.value "sequence" .null record
      let level ← record.valueString "level" ""
      return some (.object [("level", .string level), ("message", .string (shorten 240 237 message)),
        ("sequence", sequence)])
    else findMatch step records

/-- What one page of the output says: whether output was dropped before it, the record that matches, whether no page
follows, and where the next one begins. -/
structure PageReading where
  dropped : Bool
  matched : Option Json
  complete : Bool := false
  next : Nat

def readPage (step : ScenarioStep) (first : Bool) (cursor : Nat) (body : Json) : Except JsonException PageReading := do
  let dropped ← (if first then body.valueBoolean "dropped_before_cursor" false else pure false)
  let records ← Json.value "records" (.array []) body
  match ← findMatch step (elements records) with
  | some matched => return { dropped, matched := some matched, next := cursor }
  | none =>
    let next ← body.valueBy getUnsigned "next_cursor" cursor
    let more ← body.valueBoolean "has_more" false
    return { dropped, matched := none, complete := !more || next ≤ cursor, next }

/-! ## The run of a scenario -/

inductive Outcome
  | notRun
  | done
  | held
  | failed
  | error
  | interrupted
  deriving DecidableEq

/-- What the report says of a step: its outcome, why, and the other members. -/
structure StepEntry where
  index : Nat
  kind : Kind
  label : String
  outcome : Outcome := .notRun
  reason : Option String := none
  error : Option Error := none
  members : JsonObject := []

structure ScenarioFailure where
  stage : Stage
  step : Option Nat
  reason : String
  message : String
  cause : Option Error

structure RunState where
  events : List Event := []
  steps : List StepEntry
  game : Json := .null
  captures : List Json := []
  frames : Nat := 0
  failure : Option ScenarioFailure := none
  lastSentence : String := ""

abbrev RunM := Locked RunState Thrown

def entryOf (index : Nat) (step : ScenarioStep) : StepEntry := { index, kind := step.kind, label := step.label }

def initial (spec : ScenarioSpec) : RunState := { steps := spec.steps.mapIdx entryOf }

/-- What a failure of `stage` leaves of the entry of its step. -/
def StepEntry.fail (entry : StepEntry) (stage : Stage) (reason : String) (cause : Option Error) : StepEntry :=
  if stage = .assertion then { entry with outcome := .failed, reason := some reason }
  else { entry with outcome := .error, error := cause, reason := some reason }

namespace RunM

def note (event : Event) : RunM Unit := fun s => (.ok (), { s with events := s.events ++ [event] })

/-- A guarded call. -/
def call (driver : Driver) (step : Option Nat) (c : Call) : RunM (Except Error Json) := fun s =>
  let reply := driver.reply s.events c
  (.ok (guarded reply), { s with events := s.events ++ [.called step c reply] })

def pollCancelled (driver : Driver) : RunM Bool := fun s =>
  let reply := driver.cancelled s.events
  (reply, { s with events := s.events ++ [.polledCancelled reply] })

def pollElapsed (driver : Driver) : RunM Int := fun s =>
  let reply := driver.elapsedMs s.events
  (reply, { s with events := s.events ++ [.polledElapsed reply] })

/-- What an answer says, or the exception of its reading. -/
def reading {α : Type} (r : Except JsonException α) : RunM α := .ofExcept (r.mapError fun e => some e.what)

def update (f : RunState → RunState) : RunM Unit := fun s => (.ok (), f s)

def modifyStep (index : Nat) (f : StepEntry → StepEntry) : RunM Unit :=
  update fun s => { s with steps := s.steps.modify index f }

/-- A member of the entry of a step. -/
def setMember (index : Nat) (key : String) (value : Json) : RunM Unit :=
  modifyStep index fun entry => { entry with members := entry.members.insertKey key value }

def setOutcome (index : Nat) (outcome : Outcome) : RunM Unit :=
  modifyStep index fun entry => { entry with outcome }

/-- The first failure is kept. -/
def fail (stage : Stage) (step : Option Nat) (reason message : String) (cause : Option Error) : RunM Unit := fun s =>
  if s.failure.isSome then (.ok (), s)
  else
    (.ok (), { s with
      failure := some { stage, step, reason, message, cause }
      events := s.events ++ [.failed stage]
      steps := match step with
        | some index => s.steps.modify index fun entry => entry.fail stage reason cause
        | none => s.steps })

end RunM

open RunM

section Steps
variable (driver : Driver) (spec : ScenarioSpec)

def stopped (stage : Stage) (message : String) (index : Nat) (begun : Bool) : RunM Bool := do
  fail stage (some index) stage.name message none
  setOutcome index (if begun then .interrupted else .notRun)
  return true

/-- Asked before each step and between the chunks of a long one. -/
def interrupted (index : Nat) (begun : Bool) : RunM Bool := do
  if ← pollCancelled driver then
    stopped .cancelled "The job running this scenario was cancelled, so it stopped before finishing." index begun
  else if spec.timeoutSeconds * 1000 < (← pollElapsed driver) then
    stopped .timeout ("The scenario ran past its timeout_seconds of " ++ toString spec.timeoutSeconds ++ ".")
      index begun
  else return false

def stepTitle (index : Nat) (step : ScenarioStep) : String := "Step " ++ toString index ++ " (" ++ step.kind.name ++ ")"

def stepError (index : Nat) (step : ScenarioStep) (what : String) (error : Error) : RunM Unit :=
  fail .step (some index) "engine_refused" (stepTitle index step ++ " " ++ what ++ ": " ++ error.message) (some error)

/-- The loop of `driveFrames`, at most `fuel` chunks long. -/
def driveFramesLoop (index : Nat) (step : ScenarioStep) : Nat → Nat → RunM Bool
  | 0, _ => return true
  | fuel + 1, frames => do
    if frames = 0 then return true
    else
      let chunk := min frames kMaxFramesPerStepCall
      match ← call driver (some index) (.step chunk) with
      | .error error => do
        stepError index step "could not run its frames" error
        return false
      | .ok _ => do
        update fun s => { s with frames := s.frames + chunk }
        if ← interrupted driver spec index true then return false
        else driveFramesLoop index step fuel (frames - chunk)

/-- Runs `frames` frames of the paused game, at most sixty a call. -/
def driveFrames (index : Nat) (step : ScenarioStep) (frames : Nat) : RunM Bool :=
  driveFramesLoop driver spec index step frames frames

/-- The value of an expression, judged, or nothing when the engine refused it. -/
def judge (index : Nat) (step : ScenarioStep) : RunM (Option ValueJudgement) := do
  match ← call driver (some index) (.evaluate step.expression step.contextNode) with
  | .error error => do
    stepError index step "could not read its expression" error
    return none
  | .ok answer => do
    let evaluated ← reading (readEvaluation answer)
    setMember index "value" evaluated.1
    (if evaluated.2 ≠ "" then setMember index "value_type" (.string evaluated.2) else pure ())
    step.minimum.forM fun low => setMember index "minimum" (.real low.value low.text)
    step.maximum.forM fun high => setMember index "maximum" (.real high.value high.text)
    let judged := judgeValue evaluated.1 step.minimum step.maximum
    update fun s => { s with lastSentence := judgementSentence judged evaluated.1 evaluated.2 step }
    return some judged

def setAtFrame (index : Nat) : RunM Unit := do
  let s ← .fetch
  setMember index "at_frame" (.integer s.frames)

def neverHeld (index : Nat) (step : ScenarioStep) : RunM (Option Nat) := do
  let s ← .fetch
  fail .assertion (some index) "never_held"
    (stepTitle index step ++ " waited " ++ toString step.frames ++ " frames and its condition never held: " ++
      s.lastSentence ++ ".") none
  setMember index "frames_waited" (.integer step.frames)
  setAtFrame index
  return none

/-- The loop of `wait_until`, with `left` frames to go: how many frames it waited. -/
def waitLoop (index : Nat) (step : ScenarioStep) : Nat → RunM (Option Nat)
  | 0 => do
    match ← judge driver index step with
    | none => return none
    | some judged =>
      if judged.held then return some step.frames
      else neverHeld index step
  | left + 1 => do
    match ← judge driver index step with
    | none => return none
    | some judged =>
      if judged.held then return some (step.frames - (left + 1))
      else if ← driveFrames driver spec index step 1 then waitLoop index step left
      else return none

/-- What the pages of the output say together. -/
structure OutputReading where
  dropped : Bool
  matched : Option Json
  complete : Bool

/-- The loop over the pages of the output, `pages` of them at most. -/
def readPages (index : Nat) (step : ScenarioStep) (level : String) :
    Nat → Bool → Nat → Bool → RunM (Option OutputReading)
  | 0, _, _, dropped => return some { dropped, matched := none, complete := false }
  | pages + 1, first, cursor, dropped => do
    match ← call driver (some index) (.readOutput cursor level) with
    | .error error => do
      stepError index step "could not read the game's output" error
      return none
    | .ok body => do
      let page ← reading (readPage step first cursor body)
      let dropped := dropped || page.dropped
      if page.matched.isSome then return some { dropped, matched := page.matched, complete := false }
      else if page.complete then return some { dropped, matched := none, complete := true }
      else readPages index step level pages false page.next dropped

def kMaxPages : Nat := 40

def lookedFor (step : ScenarioStep) : String :=
  (if step.text = "" then "any line" else "a line containing \"" ++ step.text ++ "\"") ++
    (if step.level = "" then "" else " at " ++ step.level ++ " or above")

def outputFails (index : Nat) (reason message : String) : RunM Bool := do
  fail .assertion (some index) reason message none
  setAtFrame index
  return false

/-- Reads the game's output from its first record. -/
def checkOutput (index : Nat) (step : ScenarioStep) : RunM Bool := do
  match ← readPages driver index step (if step.level = "" then "debug" else step.level) kMaxPages true 0 false with
  | none => return false
  | some output => do
    output.matched.forM fun matched => setMember index "matched" matched
    setMember index "output_dropped" (.boolean output.dropped)
    let title := "Step " ++ toString index ++ " (assert_output)"
    match step.absent, output.matched with
    | false, none =>
      outputFails index "not_seen"
        (title ++ " found no " ++ lookedFor step ++ " in the game's output" ++
          (if output.dropped then ", and some of its earliest output was evicted before it was read" else "") ++ ".")
    | true, some matched =>
      outputFails index "seen"
        (title ++ " requires no " ++ lookedFor step ++ ", and the game printed one: " ++
          ((matched.valueString "message" "").toOption.getD "") ++ ".")
    | absent, _ =>
      if absent && (output.dropped || !output.complete) then
        outputFails index "output_unread"
          (title ++ " cannot show the game printed no " ++ lookedFor step ++ ": part of its output was " ++
            (if output.dropped then "evicted before it was read" else "past what one step reads") ++ ".")
      else do
        setOutcome index .held
        return true

/-- The part of a step that its kind decides; `true` when the step is finished. -/
def runKind (index : Nat) (step : ScenarioStep) : RunM Bool := do
  match step.kind with
  | .wait =>
    if ← driveFrames driver spec index step step.frames then
      setOutcome index .done
      return true
    else return false
  | .press =>
    match ← call driver (some index) (.press step.action true) with
    | .error error => do
      stepError index step ("could not press " ++ step.action) error
      return false
    | .ok _ =>
      if ← driveFrames driver spec index step step.frames then
        match ← call driver (some index) (.press step.action false) with
        | .error error => do
          stepError index step ("could not release " ++ step.action) error
          return false
        | .ok _ => do
          setMember index "action" (.string step.action)
          setOutcome index .done
          return true
      else return false
  | .waitUntil =>
    match ← waitLoop driver spec index step step.frames with
    | none => return false
    | some waited => do
      setMember index "frames_waited" (.integer waited)
      setOutcome index .done
      return true
  | .assertValue =>
    match ← judge driver index step with
    | none => return false
    | some judged =>
      if judged.held then do
        setOutcome index .held
        return true
      else do
        let s ← .fetch
        fail .assertion (some index) judged.reason
          (stepTitle index step ++ " did not hold: " ++ s.lastSentence ++ ".") none
        setAtFrame index
        return false
  | .assertOutput => checkOutput driver index step
  | .capture =>
    match ← call driver (some index) (.capture index) with
    | .error error => do
      stepError index step "could not capture the frame" error
      return false
    | .ok captured => do
      setMember index "capture" captured
      update fun s => { s with captures := s.captures ++ [captured] }
      setOutcome index .done
      return true

def runStep (index : Nat) (step : ScenarioStep) : RunM Unit := do
  note (.started index)
  let before ← .fetch
  if ← runKind driver spec index step then
    let s ← .fetch
    (if s.frames ≠ before.frames ∨ step.kind = .wait ∨ step.kind = .press then
      setMember index "frames" (.integer (s.frames - before.frames))
    else pure ())
    setAtFrame index
  else return ()

/-- The steps from `index` on. -/
def runSteps : Nat → List ScenarioStep → RunM Unit
  | _, [] => return ()
  | index, step :: steps => do
    let s ← .fetch
    if s.failure.isSome then return ()
    else if ← interrupted driver spec index false then return ()
    else
      runStep driver spec index step
      runSteps (index + 1) steps

end Steps

/-! ### The verdict -/

inductive Verdict
  | pass
  | fail
  | error
  deriving DecidableEq

structure AssertionCounts where
  total : Nat
  held : Nat
  failed : Nat
  notRun : Nat

structure ScenarioReport where
  scenario : String
  verdict : Verdict
  summary : String
  scenePath : String
  headless : Bool
  frames : Nat
  assertions : AssertionCounts
  steps : List StepEntry
  failure : Option ScenarioFailure
  game : Json
  teardown : Json
  teardownError : Option Error
  captures : List Json

structure ScenarioOutcome where
  verdict : Verdict
  report : ScenarioReport
  failure : Option ScenarioFailure

/-- The outcomes of the steps that are assertions. -/
def assertionOutcomes (spec : ScenarioSpec) (entries : List StepEntry) : List (ScenarioStep × Outcome) :=
  ((spec.steps.zip entries).map fun p => (p.1, p.2.outcome)).filter fun p => p.1.isAssertion

def countAssertions (outcomes : List (ScenarioStep × Outcome)) : AssertionCounts where
  total := outcomes.length
  held := outcomes.countP fun p => p.2 = .held
  failed := outcomes.countP fun p => p.2 = .failed
  notRun := outcomes.countP fun p => p.2 ≠ .held ∧ p.2 ≠ .failed

def verdictOf : Option ScenarioFailure → Verdict
  | none => .pass
  | some failure => if failure.stage = .assertion then .fail else .error

def finish (spec : ScenarioSpec) (teardown : Json) (teardownError : Option Error) : RunM ScenarioOutcome := do
  let s ← .fetch
  let outcomes := assertionOutcomes spec s.steps
  let everyStepRan := s.steps.all fun entry => entry.outcome = .done || entry.outcome = .held
  let provingHeld := outcomes.countP fun p => p.2 = .held && p.1.provesSomething
  (if s.failure.isNone ∧ (provingHeld = 0 ∨ ¬ everyStepRan) then
    fail .run none "nothing_proved"
      "The run ended without every step running and an assertion holding, so it proves nothing." none
  else pure ())
  let s ← .fetch
  let counts := countAssertions outcomes
  let verdict := verdictOf s.failure
  let summary := match s.failure with
    | none => "Every assertion held (" ++ toString counts.held ++ " of " ++ toString counts.total ++ ") over " ++
        toString s.frames ++ " frames, and the game was stopped."
    | some failure =>
      if failure.stage = .teardown then failure.message
      else failure.message ++ (if teardownError.isNone then " The game was stopped."
        else " The game may still be running: see teardown.")
  let report : ScenarioReport := {
    scenario := spec.name
    verdict
    summary
    scenePath := spec.scenePath
    headless := spec.headless
    frames := s.frames
    assertions := counts
    steps := s.steps
    failure := s.failure
    game := s.game
    teardown
    teardownError
    captures := s.captures }
  return { verdict, report, failure := s.failure }

/-- The steps, in the game that was launched. -/
def driveGame (driver : Driver) (spec : ScenarioSpec) : Except Error Json → RunM Unit
  | .error error =>
    fail .launch none "launch_failed" ("The game could not be started: " ++ error.message) (some error)
  | .ok game => do
    update fun s => { s with game }
    runSteps driver spec 0 spec.steps

def execute (driver : Driver) (spec : ScenarioSpec) : RunM ScenarioOutcome := do
  driveGame driver spec (← call driver none .launch)
  -- every path reaches this, the launch that failed included
  match ← call driver none .teardown with
  | .error error => do
    fail .teardown none "teardown_failed"
      ("Every step ran, but the game it started may still be running: " ++ error.message) (some error)
    finish spec (.object []) (some error)
  | .ok body => finish spec (if body.isObject then body else .object []) none

/-- The outcome, or the exception that escapes, and what happened until then. -/
def runScenario (spec : ScenarioSpec) (driver : Driver) : Except Thrown ScenarioOutcome × RunState :=
  (execute driver spec).run (initial spec)

end Didi.Scenario
