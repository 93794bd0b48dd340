import Didi.Reports.Scanner

/-!
# What a test run proved

* `scriptsThatDidNotLoad` : the scripts that the output names, each once and no more than 32;
* `judgeTestRun` : the verdict, from the report, the exit code and the output.
-/

namespace Didi.Reports
open Config (Text bytesOf isSpace isContinuation following fileLines)

inductive TestFramework
  | gut
  | gdunit4
deriving DecidableEq

def testFrameworkName : TestFramework → Text
  | .gut => bytesOf "gut"
  | .gdunit4 => bytesOf "gdunit4"

/-! ## Scripts that did not load -/

/-- The words stand somewhere in the text. -/
def mentions (text : Text) (words : String) : Bool := (search (following words) text).isSome

/-- `\((res://[^:()]+):([0-9]+)\)`, at the opening bracket. -/
def located (text : Text) : Option (Text × Text) := do
  let text ← following "(res://" text
  let inFile : Char → Bool := fun c => c ∉ [':', '(', ')']
  let file := text.takeWhile inFile
  let number ← following ":" (text.dropWhile inFile)
  let digits := number.takeWhile Char.isDigit
  let _ ← following ")" (number.dropWhile Char.isDigit)
  if file = [] ∨ digits = [] then none else some (bytesOf "res://" ++ file, digits)

/-- `\S*\s*` before the bracket: as many characters as there can be. -/
def afterWord : Text → Option (Text × Text)
  | [] => none
  | c :: text => if isSpace c then located ((c :: text).dropWhile isSpace) else afterWord text <|> located (c :: text)

/-- `at:\s*\S*\s*\((res://[^:()]+):([0-9]+)\)`. -/
def atLocation (text : Text) : Option (Text × Text) := do
  let text ← following "at:" text
  afterWord (text.dropWhile isSpace)

/-- `Failed to load script "(res://[^"]+)"`. -/
def failedLoad (text : Text) : Option Text := do
  let text ← following "Failed to load script \"res://" text
  let (file, _) ← cut ['"'] text
  if file = [] then none else some (bytesOf "res://" ++ file)

structure UnloadedScript where
  file : Text
  line : Nat
  message : Text
deriving DecidableEq, Repr

/-- The line that a parse error begins on. -/
def isParseError (line : Text) : Bool := mentions line "SCRIPT ERROR:" && mentions line "Parse Error"

/-- A line from its first `Parse Error` on. -/
def parseErrorOf (line : Text) : Text := bytesOf "Parse Error" ++ ((search (following "Parse Error") line).getD [])

/-- A script is listed once. -/
def listOnce (listed : List UnloadedScript) (script : UnloadedScript) : List UnloadedScript :=
  if listed.any (·.file = script.file) then listed else listed ++ [script]

def kMaxUnloaded : Nat := 32

/-- The lines from here on. Nothing where a line number is thrown out. -/
def listUnloaded (listed : List UnloadedScript) (pending : Option Text) : List Text → Option (List UnloadedScript)
  | [] => some listed
  | line :: lines =>
    if kMaxUnloaded ≤ listed.length then some listed
    else if isParseError line then listUnloaded listed (some (parseErrorOf line)) lines
    else
      match pending.bind fun message => (search atLocation line).map (message, ·) with
      | some (message, file, digits) =>
        if listed.any (·.file = file) then listUnloaded listed none lines
        else do
          let number ← stoi digits
          listUnloaded (listed ++ [⟨file, number, message⟩]) none lines
      | none =>
        match search failedLoad line with
        | some file => listUnloaded (listOnce listed ⟨file, 0, bytesOf "Failed to load script"⟩) none lines
        | none => listUnloaded listed none lines

def scriptsThatDidNotLoad (output : Text) : Option (List UnloadedScript) := listUnloaded [] none (fileLines output)

/-! ## The output -/

/-- The last lines of a reversed text, up to the newline that is one too many. -/
def lastLines : Nat → Text → Text
  | 0, _ => []
  | _, [] => []
  | wanted + 1, c :: text =>
    if c = '\n' then
      if wanted = 0 ∧ text ≠ [] then [] else c :: lastLines wanted text
    else c :: lastLines (wanted + 1) text

def tail (output : Text) (linesWanted : Nat) (maxBytes : Nat := 4000) : Text :=
  let text := (lastLines linesWanted output.reverse).reverse
  if maxBytes < text.length then (text.drop (text.length - maxBytes)).dropWhile isContinuation else text

inductive ConsoleState
  | plain
  | escape
  | control

def plainFrom : ConsoleState → Text → Text
  | _, [] => []
  | .control, c :: text => plainFrom (if 0x40 ≤ c.toNat && c.toNat ≤ 0x7e then .plain else .control) text
  | .escape, '[' :: text => plainFrom .control text
  | _, c :: text =>
    if c.toNat = 0x1b then plainFrom .escape text
    else if 0x20 ≤ c.toNat || c = '\n' || c = '\r' || c = '\t' then c :: plainFrom .plain text
    else plainFrom .plain text

/-- Output without the control sequences of a console. -/
def plainConsoleOutput (output : Text) : Text := plainFrom .plain output

/-- `(?:\.[A-Za-z_][A-Za-z_0-9.]*)?\s*` matches a whole text. -/
def isClassSuffix (text : Text) : Bool :=
  let text := text.rdropWhile isSpace
  match text with
  | [] => true
  | '.' :: c :: rest => (c.isAlpha || c = '_') && rest.all fun c => c.isAlphanum || c = '_' || c = '.'
  | _ => false

/-- `^\s*(res://.+\.gd)(?:\.[A-Za-z_][A-Za-z_0-9.]*)?\s*$`. -/
def heading (line : Text) : Option Text := do
  let path ← following "res://" (line.dropWhile isSpace)
  let fits := fun n => (bytesOf ".gd").isSuffixOf (path.take n) && 3 < n &&
    (path.take n).all (fun c => c ≠ '\n' && c ≠ '\r') && isClassSuffix (path.drop n)
  let n ← ((List.range (path.length + 1)).reverse.find? fits)
  some (bytesOf "res://" ++ path.take n)

structure GutProgress where
  scriptsStarted : Nat
  lastScript : Option Text
  outputTruncated : Bool

def gutScriptProgress (output : Text) (truncated : Bool) : GutProgress :=
  let lines := Config.dropEmptyLast (output.splitOn '\n')
  let scripts := (lines.filter (·.length ≤ 1200)).filterMap fun line =>
    (heading line).filter (·.length ≤ 1024)
  { scriptsStarted := scripts.dedup.length, lastScript := scripts.getLast?, outputTruncated := truncated }

/-! ## The verdict -/

structure InstalledTestFramework where
  framework : TestFramework
  entry : Text
  version : Text

structure TestRunFacts where
  framework : InstalledTestFramework
  paths : List Text
  exitCode : Int := 0
  timedOut : Bool := false
  cancelled : Bool := false
  reportXml : Option Text := none
  output : Text := []
  outputTruncated : Bool := false

inductive Verdict
  | pass
  | fail
  | error
deriving DecidableEq, Repr

inductive Reason
  | testsFailed
  | noTests
  | nothingProved
  | noReport
  | reportUnreadable
  | scriptsDidNotLoad
  | exitCodeDisagrees
  | outputTruncated
  | timeout
  | cancelled
deriving DecidableEq, Repr

structure Judgement where
  verdict : Verdict
  -- nothing on a pass
  reason : Option Reason
  summary : Text

structure Counts where
  total : Nat
  passed : Nat
  failed : Nat
  errors : Nat
  skipped : Nat
  noAssertions : Nat
deriving DecidableEq, Repr

/-- One test as the report lists it. -/
structure TestEntry (ρ : Type) where
  suite : Text
  name : Text
  outcome : Outcome
  seconds : ρ
  message : Option Text
  file : Option Text
  line : Option Nat

structure TestRunReport (ρ : Type) where
  notImported : Bool
  framework : Text
  version : Option Text
  judgement : Judgement
  paths : List Text
  -- GUT's configuration file, and whether it was ignored
  configurationIgnored : Option Bool
  exitCode : Int
  counts : Counts
  tests : List (TestEntry ρ)
  failedTests : List Text
  scriptsDidNotLoad : List UnloadedScript
  addonScriptsDidNotLoad : List UnloadedScript
  truncated : Bool
  outputTail : Option Text
  progress : Option GutProgress

def kMaxReportedTests : Nat := 1000

/-- `std::to_string`. -/
def numberText (n : Int) : Text := (toString n).toList

def isGut (facts : TestRunFacts) : Bool := facts.framework.framework = .gut

def frameworkName (facts : TestRunFacts) : Text := if isGut facts then bytesOf "GUT" else bytesOf "GdUnit4"

/-- Whether a script is under a path that was tested. -/
def testedBy (file path : Text) : Bool :=
  file = path || (if path.getLast? = some '/' then path else path ++ ['/']).isPrefixOf file

def tested (facts : TestRunFacts) (file : Text) : Bool := facts.paths.any (testedBy file)

def isAddon (file : Text) : Bool := (bytesOf "res://addons/").isPrefixOf file

/-- Only an addon's own script is left aside, unless it is what is tested. -/
def concerns (facts : TestRunFacts) (file : Text) : Bool := !(isAddon file && !tested facts file)

/-- What the exit code says, in the framework's own terms. -/
def exitSaysFailed (facts : TestRunFacts) : Option Bool :=
  if isGut facts then
    if facts.exitCode = 0 then some false else if facts.exitCode = 1 then some true else none
  else if facts.exitCode = 0 ∨ facts.exitCode = 101 then some false
  else if facts.exitCode = 100 then some true
  else none

section
variable {ρ : Type}

def countOf (cases : List (TestCaseResult ρ)) (outcome : Outcome) : Nat :=
  cases.countP fun test => test.outcome = outcome

def countsOf (cases : List (TestCaseResult ρ)) : Counts where
  total := cases.length
  passed := countOf cases .passed
  failed := countOf cases .failed
  errors := countOf cases .error
  skipped := countOf cases .skipped
  noAssertions := countOf cases .noAssertions

def Counts.bad (counts : Counts) : Nat := counts.failed + counts.errors

def entryOf (test : TestCaseResult ρ) : TestEntry ρ where
  suite := test.suite
  name := test.name
  outcome := test.outcome
  seconds := test.seconds
  message :=
    if test.message = [] then none
    else if 2000 < test.message.length then some (test.message.take 1997 ++ bytesOf "...")
    else some test.message
  file := if test.file = [] then none else some test.file
  line := if 0 < test.line then some test.line else none

/-- The failed tests by suite and name. -/
def failedOf (cases : List (TestCaseResult ρ)) : List Text :=
  (cases.filter fun test => test.outcome = .failed || test.outcome = .error).map fun test =>
    test.suite ++ bytesOf " :: " ++ test.name

end

/-- The first of the scripts, as a summary names it. -/
def firstScript (scripts : List UnloadedScript) : Text := (scripts.head?.map UnloadedScript.file).getD []

def unimported (facts : TestRunFacts) : Bool :=
  mentions facts.output "have not been imported" || mentions facts.output "Could not find type \"GdUnit"

/-- The verdict on a run that wrote no report. -/
def judgeUnreported (facts : TestRunFacts) (didNotLoad : List UnloadedScript) : Judgement :=
  let name := frameworkName facts
  let why := name ++ bytesOf " exited " ++ numberText facts.exitCode ++ bytesOf " and wrote no report"
  if unimported facts then
    ⟨.error, some .noReport, why ++ bytesOf (": its classes are not imported in this project yet. Open the project " ++
      "in the Godot editor once, or run godot --headless --import in it, then run the tests again.")⟩
  else if mentions facts.output "No test cases found" then
    ⟨.error, some .noTests, name ++ bytesOf " found no tests to run in " ++
      (if facts.paths = [] then bytesOf "its configured directories" else bytesOf "the paths given") ++
      bytesOf ", so nothing was proved."⟩
  else if didNotLoad ≠ [] then
    ⟨.error, some .scriptsDidNotLoad, numberText didNotLoad.length ++ bytesOf " script(s) did not load and " ++ name ++
      bytesOf " wrote no report: " ++ firstScript didNotLoad ++ bytesOf " first."⟩
  else ⟨.error, some .noReport, why ++ bytesOf "."⟩

/-- The verdict on a run whose report was read. -/
def judgeReported (facts : TestRunFacts) (counts : Counts) (failed : List Text) (didNotLoad : List UnloadedScript) :
    Judgement :=
  let name := frameworkName facts
  let exited := name ++ bytesOf " exited " ++ numberText facts.exitCode
  if didNotLoad ≠ [] then
    ⟨if 0 < counts.bad then .fail else .error, some .scriptsDidNotLoad, numberText didNotLoad.length ++
      bytesOf " script(s) did not load, so their tests are not in the report: " ++ firstScript didNotLoad ++
      bytesOf " first."⟩
  else if counts.total = 0 then
    ⟨.error, some .noTests, name ++ bytesOf " ran no tests, so nothing was proved."⟩
  else match exitSaysFailed facts with
    | none =>
      ⟨.error, some .exitCodeDisagrees, exited ++
        bytesOf ", which is neither a pass nor a failure: it could not run the tests as asked."⟩
    | some saysFailed =>
      if saysFailed ≠ decide (0 < counts.bad) then
        ⟨.error, some .exitCodeDisagrees, exited ++ bytesOf ", which says " ++
          (if saysFailed then bytesOf "a test failed" else bytesOf "every test passed") ++
          bytesOf ", and its report has " ++ numberText counts.bad ++ bytesOf " failing test(s)."⟩
      else if 0 < counts.bad then
        ⟨.fail, some .testsFailed, numberText counts.bad ++ bytesOf " of " ++ numberText counts.total ++
          bytesOf " tests failed: " ++ failed.headD [] ++ bytesOf " first."⟩
      else if counts.passed = 0 then
        ⟨.error, some .nothingProved, bytesOf "No test passed: every one of the " ++ numberText counts.total ++
          bytesOf " was skipped or asserted nothing."⟩
      else if facts.outputTruncated then
        ⟨.error, some .outputTruncated, bytesOf ("Godot printed more than this run keeps, so a script that did not " ++
          "load could be named in the part that was dropped. Have the tests print less, or run fewer paths at a time.")⟩
      else
        ⟨.pass, none, numberText counts.passed ++ bytesOf " of " ++ numberText counts.total ++
          bytesOf " tests passed and none failed" ++
          (if 0 < counts.skipped + counts.noAssertions then bytesOf "; the rest were skipped or asserted nothing."
            else bytesOf ".")⟩

section
variable {ρ : Type} [Zero ρ] (stod : Text → Option ρ)

/-- What became of the report: its cases, or why it was not read, or nothing when there is none. -/
inductive ReportRead (ρ : Type)
  | unwritten
  | unread (problem : Text)
  | read (cases : List (TestCaseResult ρ))

/-- Nothing where a line number is thrown out. -/
def readReport (facts : TestRunFacts) : Option (ReportRead ρ) :=
  match facts.reportXml with
  | none => some .unwritten
  | some xml =>
    match parseJUnitReport stod xml with
    | .ok cases => some (.read cases)
    | .error (.refused e) => some (.unread e.message.toList)
    | .error .thrown => none

def ReportRead.cases : ReportRead ρ → List (TestCaseResult ρ)
  | .read cases => cases
  | _ => []

def judge (facts : TestRunFacts) (report : ReportRead ρ) (didNotLoad : List UnloadedScript) : Judgement :=
  if facts.cancelled then
    ⟨.error, some .cancelled, bytesOf "The job running the tests was cancelled, so the run was stopped."⟩
  else if facts.timedOut then
    ⟨.error, some .timeout, bytesOf "The tests ran past timeout_seconds and were stopped."⟩
  else match report with
    | .unwritten => judgeUnreported facts didNotLoad
    | .unread problem =>
      ⟨.error, some .reportUnreadable, bytesOf "The report " ++ frameworkName facts ++
        bytesOf " wrote could not be read: " ++ problem⟩
    | .read cases => judgeReported facts (countsOf cases) (failedOf cases) didNotLoad

/-- What the run proved, nothing where a line number is thrown out. -/
def judgeTestRun (facts : TestRunFacts) : Option (TestRunReport ρ) := do
  let report ← readReport stod facts
  let unloaded ← scriptsThatDidNotLoad facts.output
  let cases := report.cases
  let didNotLoad := unloaded.filter fun script => concerns facts script.file
  let judgement := judge facts report didNotLoad
  let plain := plainConsoleOutput facts.output
  some {
    notImported := !facts.cancelled && !facts.timedOut && facts.reportXml.isNone && unimported facts
    framework := testFrameworkName facts.framework.framework
    version := if facts.framework.version = [] then none else some facts.framework.version
    judgement
    paths := facts.paths
    configurationIgnored := if isGut facts then some (facts.paths ≠ []) else none
    exitCode := facts.exitCode
    counts := countsOf cases
    tests := (cases.take kMaxReportedTests).map entryOf
    failedTests := failedOf cases
    scriptsDidNotLoad := didNotLoad
    addonScriptsDidNotLoad := unloaded.filter fun script => !concerns facts script.file
    truncated := kMaxReportedTests < cases.length || facts.outputTruncated
    outputTail :=
      if facts.timedOut then some (tail plain 5 512)
      else if judgement.verdict ≠ .pass then some (tail facts.output 40)
      else none
    progress := if facts.timedOut && isGut facts then some (gutScriptProgress plain facts.outputTruncated) else none }

end

end Didi.Reports
