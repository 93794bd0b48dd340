import Didi.Common
import Didi.Config.Text

/-!
# Reading a JUnit report

* `JUnitScanner` : the elements that are open, the suite and the case that are being read;
* `scanStep` : one piece of markup, and the text before it;
* `scan` : a whole report, and `parseJUnitReport` : its cases, each with the place where it failed.

A text is its bytes (`Config.Text`), and `stod` is the library's, which answers nothing where it throws.
-/

namespace Didi.Reports
open Config (Text bytesOf isSpace isSpacing isHexDigit trimBy following)

inductive Outcome
  | passed
  | failed
  | error
  | skipped
  | noAssertions
deriving DecidableEq, Repr

structure TestCaseResult (ρ : Type) where
  suite : Text := []
  name : Text := []
  outcome : Outcome := .passed
  message : Text := []
  file : Text := []
  line : Nat := 0
  seconds : ρ

/-- The attributes of an element, the one written last first. -/
abbrev Attributes := List (Text × Text)

/-- An attribute, or nothing when the element has no such attribute. -/
def attr (attributes : Attributes) (key : String) : Text := (attributes.lookup key.toList).getD []

/-! ## Characters -/

/-- XML white space at both ends is dropped. -/
def trim (text : Text) : Text := trimBy isSpacing text

def digitValue (c : Char) : Nat :=
  if c.isDigit then c.toNat - 48 else if 'a' ≤ c && c ≤ 'f' then c.toNat - 87 else c.toNat - 55

def numberOf (base : Nat) (digits : Text) : Nat := digits.foldl (fun n c => n * base + digitValue c) 0

/-- A number in base 16 may begin with `0x`. -/
def dropHexPrefix (hexadecimal : Bool) (text : Text) : Text :=
  match text with
  | '0' :: x :: c :: rest => if hexadecimal && (x = 'x' || x = 'X') && isHexDigit c then c :: rest else text
  | _ => text

/-- `std::stoul` in base 10 or 16, nothing where it throws. No more than eight digits are ever given to it, and a
number below zero becomes one that is too large for a character. -/
def stoul (text : Text) (hexadecimal : Bool) : Option Nat :=
  let isDigit := if hexadecimal then isHexDigit else Char.isDigit
  let base := if hexadecimal then 16 else 10
  let text := text.dropWhile isSpace
  let negative := text.head? = some '-'
  let text := if negative || text.head? = some '+' then text.tail else text
  let digits := (dropHexPrefix hexadecimal text).takeWhile isDigit
  let number := numberOf base digits
  if digits = [] then none else some (if negative && number ≠ 0 then 2 ^ 64 - number else number)

def appendUtf8 (code : Nat) : Text :=
  if code < 0x80 then [Char.ofNat code]
  else if code < 0x800 then [Char.ofNat (0xC0 + code / 64), Char.ofNat (0x80 + code % 64)]
  else if code < 0x10000 then
    [Char.ofNat (0xE0 + code / 4096), Char.ofNat (0x80 + code / 64 % 64), Char.ofNat (0x80 + code % 64)]
  else if code < 0x110000 then
    [Char.ofNat (0xF0 + code / 262144), Char.ofNat (0x80 + code / 4096 % 64), Char.ofNat (0x80 + code / 64 % 64),
      Char.ofNat (0x80 + code % 64)]
  else []

/-- What stands for `&entity;`. -/
def decodeEntity (entity : Text) : Text :=
  let unread := '&' :: entity ++ [';']
  if entity = bytesOf "lt" then ['<']
  else if entity = bytesOf "gt" then ['>']
  else if entity = bytesOf "amp" then ['&']
  else if entity = bytesOf "quot" then ['"']
  else if entity = bytesOf "apos" then ['\'']
  else match entity with
    | '#' :: number =>
      let hexadecimal := number.head? = some 'x' || number.head? = some 'X'
      match stoul (if hexadecimal then number.tail else number) hexadecimal with
      | some code => appendUtf8 code
      | none => unread
    | _ => unread

/-- The entity that a text after `&` begins with: its `;` is near enough. -/
def entityOf (text : Text) : Option Text :=
  let entity := text.takeWhile (· ≠ ';')
  if ';' ∈ text ∧ entity.length < 10 then some entity else none

/-- Decoding, after `skip` characters of an entity that was decoded. -/
def decodeFrom : Nat → Text → Text
  | _, [] => []
  | skip + 1, _ :: text => decodeFrom skip text
  | 0, c :: text =>
    if c = '&' then
      match entityOf text with
      | some entity => decodeEntity entity ++ decodeFrom (entity.length + 1) text
      | none => c :: decodeFrom 0 text
    else c :: decodeFrom 0 text

def decode (text : Text) : Text := decodeFrom 0 text

/-! ## Elements -/

def refuse (message : Text) : Error := { code := 422, message := String.ofList message }

/-- What stands before and after the first `needle`. -/
def cut (needle : Text) : Text → Option (Text × Text)
  | [] => none
  | c :: text =>
    if needle.isPrefixOf (c :: text) then some ([], (c :: text).drop needle.length)
    else (cut needle text).map fun e => (c :: e.1, e.2)

/-- The attributes of an element up to the end of its tag, whether it closes itself, and what follows. -/
def readAttributes (name : Text) : Nat → Attributes → Text → Except Error (Attributes × Bool × Text)
  | 0, _, _ => .error (refuse (bytesOf "The report ends inside <" ++ name ++ bytesOf ">."))
  | fuel + 1, attributes, text =>
    match text.dropWhile isSpace with
    | [] => .error (refuse (bytesOf "The report ends inside <" ++ name ++ bytesOf ">."))
    | '>' :: rest => .ok (attributes, false, rest)
    | '/' :: '>' :: rest => .ok (attributes, true, rest)
    | '/' :: _ => .error (refuse (bytesOf "A stray '/' in <" ++ name ++ bytesOf ">."))
    | text =>
      let inKey : Char → Bool := fun c => c ≠ '=' && !isSpace c && c ≠ '>'
      let key := text.takeWhile inKey
      let inTag := bytesOf "Attribute " ++ key ++ bytesOf " in <" ++ name
      match (text.dropWhile inKey).dropWhile isSpace with
      | '=' :: rest =>
        match rest.dropWhile isSpace with
        | quote :: rest =>
          if quote = '"' || quote = '\'' then
            match cut [quote] rest with
            | some (value, rest) => readAttributes name fuel ((key, decode value) :: attributes) rest
            | none => .error (refuse (inTag ++ bytesOf "> never ends."))
          else .error (refuse (inTag ++ bytesOf "> is not quoted."))
        | [] => .error (refuse (inTag ++ bytesOf "> is not quoted."))
      | _ => .error (refuse (inTag ++ bytesOf "> has no value."))

/-- The characters of an element's name. -/
def inName (c : Char) : Bool := !isSpace c && c ≠ '>' && c ≠ '/'

structure JUnitScanner (ρ : Type) where
  -- the innermost element first
  stack : List Text := []
  report : List (TestCaseResult ρ) := []
  suite : Text := []
  case : Option (TestCaseResult ρ) := none
  capture : Bool := false
  text : Text := []

/-- The rank of an outcome among those of the children of a case. -/
def Outcome.rank : Outcome → Nat
  | .error => 3
  | .failed => 2
  | .skipped => 1
  | _ => 0

/-- The outcome that a child of a case names. -/
def outcomeNamed (name : Text) : Option Outcome :=
  if name = bytesOf "failure" then some .failed
  else if name = bytesOf "error" then some .error
  else if name = bytesOf "skipped" then some .skipped
  else none

/-- What a suite is called. -/
def suiteName (attributes : Attributes) : Text :=
  let suite := attr attributes "name"
  let package := attr attributes "package"
  if package ≠ [] ∧ suite ≠ [] then package ++ '/' :: suite else suite

/-- A failure outranks a skip, and an error outranks both. -/
def raised (outcome outcome' : Outcome) : Outcome := if outcome.rank ≤ outcome'.rank then outcome' else outcome

/-- A message with the text of its element after it. -/
def withText (message text : Text) : Text :=
  if text = [] then message else if message = [] then text else message ++ '\n' :: text

section
variable {ρ : Type} [Zero ρ] (stod : Text → Option ρ)

/-- A case as its element begins. -/
def caseOf (suite : Text) (attributes : Attributes) : TestCaseResult ρ :=
  let classname := attr attributes "classname"
  let status := attr attributes "status"
  let time := attr attributes "time"
  { suite := if classname = [] then suite else classname
    name := attr attributes "name"
    outcome := if status = bytesOf "no asserts" ∨ status = bytesOf "risky" then .noAssertions else .passed
    seconds := if time = [] then 0 else (stod time).getD 0 }

namespace JUnitScanner

def start (s : JUnitScanner ρ) (name : Text) (attributes : Attributes) : JUnitScanner ρ :=
  if name = bytesOf "testsuite" then { s with suite := suiteName attributes }
  else if name = bytesOf "testcase" then { s with case := some (caseOf stod s.suite attributes) }
  else match s.case, outcomeNamed name with
    | some case, some outcome =>
      { s with
        case := some { case with outcome := raised case.outcome outcome, message := attr attributes "message" }
        capture := true
        text := [] }
    | _, _ => s

/-- An element ends. -/
def finish (s : JUnitScanner ρ) (name : Text) : JUnitScanner ρ :=
  match s.case, outcomeNamed name with
  | some case, some _ =>
    { s with case := some { case with message := withText case.message (trim s.text) }, capture := false }
  | some case, none =>
    if name = bytesOf "testcase" then { s with report := s.report ++ [case], case := none }
    else if name = bytesOf "testsuite" then { s with suite := [] }
    else s
  | none, _ => if name = bytesOf "testsuite" then { s with suite := [] } else s

def close (s : JUnitScanner ρ) (name : Text) : Except Error (JUnitScanner ρ) :=
  match s.stack with
  | [] => .ok (s.finish name)
  | top :: stack =>
    if top = name then .ok ({ s with stack }.finish name)
    else .error (refuse (bytesOf "</" ++ name ++ bytesOf "> closes <" ++ top ++ bytesOf ">."))

/-- The element that a text after `<` begins with. -/
def openElement (s : JUnitScanner ρ) (text : Text) : Except Error (JUnitScanner ρ × Text) :=
  let name := text.takeWhile inName
  if name = [] then .error (refuse (bytesOf "The report has a tag with no name."))
  else do
    let (attributes, selfClosing, rest) ← readAttributes name (text.length + 1) [] (text.dropWhile inName)
    let s := s.start stod name attributes
    if selfClosing then
      let s ← s.close name
      .ok (s, rest)
    else
      let s := { s with stack := name :: s.stack }
      if 32 < s.stack.length then .error (refuse (bytesOf "The report nests deeper than a test report does."))
      else .ok (s, rest)

/-- Text that stands inside a child of a case is kept. -/
def keep (s : JUnitScanner ρ) (text : Text) : JUnitScanner ρ :=
  if s.case.isSome && s.capture then { s with text := s.text ++ text } else s

/-- The markup that a text begins with. -/
def readMarkup (s : JUnitScanner ρ) (text : Text) : Except Error (JUnitScanner ρ × Text) :=
  if (bytesOf "<!--").isPrefixOf text then
    match cut (bytesOf "-->") text with
    | some (_, rest) => .ok (s, rest)
    | none => .error (refuse (bytesOf "A comment in the report never ends."))
  else if (bytesOf "<![CDATA[").isPrefixOf text then
    match cut (bytesOf "]]>") (text.drop 9) with
    | some (characters, rest) => .ok (s.keep characters, rest)
    | none => .error (refuse (bytesOf "A CDATA section in the report never ends."))
  else if (bytesOf "<?").isPrefixOf text || (bytesOf "<!").isPrefixOf text then
    match cut ['>'] text with
    | some (_, rest) => .ok (s, rest)
    | none => .error (refuse (bytesOf "A declaration in the report never ends."))
  else if (bytesOf "</").isPrefixOf text then
    match cut ['>'] (text.drop 2) with
    | some (closed, rest) => do
      let s ← s.close (trim closed)
      .ok (s, rest)
    | none => .error (refuse (bytesOf "A closing tag in the report never ends."))
  else s.openElement stod text.tail

/-- The text up to the next markup, and the markup; nothing when there is no more of it. -/
def scanStep (s : JUnitScanner ρ) (xml : Text) : Except Error (Option (JUnitScanner ρ × Text)) :=
  if '<' ∈ xml then
    (readMarkup stod (s.keep (decode (xml.takeWhile (· ≠ '<')))) (xml.dropWhile (· ≠ '<'))).map some
  else .ok none

def scanLoop : Nat → JUnitScanner ρ → Text → Except Error (JUnitScanner ρ)
  | 0, s, _ => .ok s
  | fuel + 1, s, xml =>
    match scanStep stod s xml with
    | .error e => .error e
    | .ok none => .ok s
    | .ok (some (s, rest)) => scanLoop fuel s rest

def scanFrom (s : JUnitScanner ρ) (xml : Text) : Except Error (JUnitScanner ρ) :=
  scanLoop stod (xml.length + 1) s xml

/-- The cases of a report. -/
def scan (xml : Text) : Except Error (List (TestCaseResult ρ)) := do
  let s ← scanFrom stod ({} : JUnitScanner ρ) xml
  match s.stack with
  | [] => .ok s.report
  | top :: _ => .error (refuse (bytesOf "The report ends inside <" ++ top ++ bytesOf ">."))

end JUnitScanner

end

/-! ## Where a case failed -/

/-- The first place of a text where `here` finds something. -/
def search {α : Type} (here : Text → Option α) : Text → Option α
  | [] => here []
  | c :: text => here (c :: text) <|> search here text

/-- `res://[^\s:'"()]+\.gd:[0-9]+`. -/
def resLine (text : Text) : Option (Text × Text) := do
  let text ← following "res://" text
  let inPath : Char → Bool := fun c => !isSpace c && c ∉ [':', '\'', '"', '(', ')']
  let path := text.takeWhile inPath
  let number ← following ":" (text.dropWhile inPath)
  let digits := number.takeWhile Char.isDigit
  if (bytesOf ".gd").isSuffixOf path && 3 < path.length && digits ≠ [] then some (bytesOf "res://" ++ path, digits)
  else none

/-- `at line [0-9]+`. -/
def atLine (text : Text) : Option Text := do
  let number ← following "at line " text
  let digits := number.takeWhile Char.isDigit
  if digits = [] then none else some digits

/-- `std::stoi` of digits, nothing where it throws. -/
def stoi (digits : Text) : Option Nat :=
  let number := numberOf 10 digits
  if number < 2 ^ 31 then some number else none

section
variable {ρ : Type}

/-- A case with the place where it failed, nothing when a number is thrown out. -/
def locate (test : TestCaseResult ρ) : Option (TestCaseResult ρ) :=
  match search resLine test.message with
  | some (file, digits) => do
    let line ← stoi digits
    some { test with file, line }
  | none =>
    let file :=
      if 3 < test.suite.length ∧ (bytesOf ".gd").isSuffixOf test.suite then
        if (bytesOf "res://").isPrefixOf test.suite then test.suite else bytesOf "res://" ++ test.suite
      else test.file
    match search atLine test.message with
    | some digits => do
      let line ← stoi digits
      some { test with file, line }
    | none => some { test with file }

def kMaxReportBytes : Nat := 16 * 1024 * 1024

/-- How reading a report fails. -/
inductive Failure
  | refused (error : Error)
  -- `std::out_of_range` of a line number
  | thrown

variable [Zero ρ] (stod : Text → Option ρ)

def parseJUnitReport (xml : Text) : Except Failure (List (TestCaseResult ρ)) :=
  if kMaxReportBytes < xml.length then
    .error (.refused { code := 413, message := "The test report is larger than the 16 MiB this reads." })
  else
    match JUnitScanner.scan stod xml with
    | .error e => .error (.refused e)
    | .ok cases =>
      match cases.mapM locate with
      | some cases => .ok cases
      | none => .error .thrown

end

end Didi.Reports
