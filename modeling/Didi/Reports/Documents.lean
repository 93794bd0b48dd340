import Didi.Reports.Scanner

/-!
# Reports as trees

* `Glyph`, `Content`, `Tag` : characters, text with CDATA sections, and a start tag with its end tag, each with its
  spelling;
* `Body` : what stands inside of an element, and `Document` : a whole report;
* `text` : how a part of a report is written; `WellFormed` : what may stand where;
* `cases` : the cases that a report tells of.
-/

namespace Didi.Reports
open Config (Text bytesOf isSpace isHexDigit)

/-! ## Characters -/

inductive Entity
  | lt
  | gt
  | amp
  | quot
  | apos
deriving DecidableEq

def Entity.name : Entity → Text
  | .lt => bytesOf "lt"
  | .gt => bytesOf "gt"
  | .amp => bytesOf "amp"
  | .quot => bytesOf "quot"
  | .apos => bytesOf "apos"

def Entity.char : Entity → Char
  | .lt => '<'
  | .gt => '>'
  | .amp => '&'
  | .quot => '"'
  | .apos => '\''

/-- A character as it is written: itself, an entity, or a reference by its code. -/
inductive Glyph
  | plain (c : Char)
  | named (entity : Entity)
  | decimal (digits : Text)
  | hexadecimal (digits : Text)

namespace Glyph

/-- What it is written as. -/
def text : Glyph → Text
  | .plain c => [c]
  | .named entity => '&' :: entity.name ++ [';']
  | .decimal digits => '&' :: '#' :: digits ++ [';']
  | .hexadecimal digits => '&' :: '#' :: 'x' :: digits ++ [';']

/-- The bytes of the character that it stands for. -/
def value : Glyph → Text
  | .plain c => [c]
  | .named entity => [entity.char]
  | .decimal digits => bytesOf (String.singleton (Char.ofNat (numberOf 10 digits)))
  | .hexadecimal digits => bytesOf (String.singleton (Char.ofNat (numberOf 16 digits)))

/-- It may stand where the characters `reserved` may not. -/
def WellFormed (reserved : List Char) : Glyph → Prop
  | .plain c => c ∉ reserved
  | .named _ => True
  | .decimal digits => digits ≠ [] ∧ digits.length ≤ 8 ∧ (∀ c ∈ digits, c.isDigit = true) ∧
      (numberOf 10 digits).isValidChar
  | .hexadecimal digits => digits ≠ [] ∧ digits.length ≤ 7 ∧ (∀ c ∈ digits, isHexDigit c = true) ∧
      (numberOf 16 digits).isValidChar

end Glyph

def glyphsText (glyphs : List Glyph) : Text := glyphs.flatMap Glyph.text

def glyphsValue (glyphs : List Glyph) : Text := glyphs.flatMap Glyph.value

/-- Text, with CDATA sections in it. -/
structure Content where
  sections : List (List Glyph × Text)
  last : List Glyph

namespace Content

def text (content : Content) : Text :=
  (content.sections.flatMap fun e => glyphsText e.1 ++ bytesOf "<![CDATA[" ++ e.2 ++ bytesOf "]]>") ++
    glyphsText content.last

def value (content : Content) : Text :=
  (content.sections.flatMap fun e => glyphsValue e.1 ++ e.2) ++ glyphsValue content.last

structure WellFormed (content : Content) : Prop where
  characters : ∀ e ∈ content.sections, ∀ glyph ∈ e.1, glyph.WellFormed ['<', '&']
  sections : ∀ e ∈ content.sections, ¬ [']', ']', '>'] <:+: e.2
  last : ∀ glyph ∈ content.last, glyph.WellFormed ['<', '&']

end Content

/-! ## Tags -/

structure Attribute where
  -- white space before the name, before the `=` and behind it
  spaces : Text
  key : Text
  before : Text
  after : Text
  quote : Char
  value : List Glyph

namespace Attribute

def text (a : Attribute) : Text :=
  a.spaces ++ a.key ++ a.before ++ '=' :: a.after ++ a.quote :: glyphsText a.value ++ [a.quote]

structure WellFormed (a : Attribute) : Prop where
  spaces : a.spaces ≠ [] ∧ ∀ c ∈ a.spaces, isSpace c = true
  key : a.key ≠ [] ∧ ∀ c ∈ a.key, isSpace c = false ∧ c ∉ ['=', '>', '/']
  around : ∀ c ∈ a.before ++ a.after, isSpace c = true
  quote : a.quote = '"' ∨ a.quote = '\''
  value : ∀ glyph ∈ a.value, glyph.WellFormed ['<', '&', a.quote]

end Attribute

/-- A start tag, and the white space of its end tag. -/
structure Tag where
  attributes : List Attribute
  spaces : Text
  endSpaces : Text

namespace Tag

def openText (tag : Tag) (name : Text) : Text :=
  '<' :: name ++ tag.attributes.flatMap Attribute.text ++ tag.spaces ++ ['>']

def closeText (tag : Tag) (name : Text) : Text := '<' :: '/' :: name ++ tag.endSpaces ++ ['>']

/-- The value of an attribute, the last of its name. -/
def value (tag : Tag) (key : String) : Text :=
  ((tag.attributes.reverse.find? fun a => a.key = key.toList).map fun a => glyphsValue a.value).getD []

structure WellFormed (tag : Tag) : Prop where
  attributes : ∀ a ∈ tag.attributes, a.WellFormed
  spaces : ∀ c ∈ tag.spaces, isSpace c = true
  endSpaces : ∀ c ∈ tag.endSpaces, c ∈ [' ', '\t', '\r', '\n']

end Tag

/-! ## Elements -/

inductive ResultKind
  | failure
  | error
  | skipped
deriving DecidableEq

namespace ResultKind

def name : ResultKind → Text
  | .failure => bytesOf "failure"
  | .error => bytesOf "error"
  | .skipped => bytesOf "skipped"

def outcome : ResultKind → Outcome
  | .failure => .failed
  | .error => .error
  | .skipped => .skipped

end ResultKind

/-- A failure, an error or a skip, and what stands before it. -/
structure CaseResult where
  gap : Content
  kind : ResultKind
  tag : Tag
  content : Content

namespace CaseResult

def text (r : CaseResult) : Text :=
  r.gap.text ++ r.tag.openText r.kind.name ++ r.content.text ++ r.tag.closeText r.kind.name

structure WellFormed (r : CaseResult) : Prop where
  gap : r.gap.WellFormed
  tag : r.tag.WellFormed
  content : r.content.WellFormed

/-- The message attribute, and under it the text. -/
def message (r : CaseResult) : Text := withText (r.tag.value "message") (trim r.content.value)

end CaseResult

structure Case where
  tag : Tag
  results : List CaseResult
  last : Content

namespace Case

def text (c : Case) : Text :=
  c.tag.openText (bytesOf "testcase") ++ c.results.flatMap CaseResult.text ++ c.last.text ++
    c.tag.closeText (bytesOf "testcase")

structure WellFormed (c : Case) : Prop where
  tag : c.tag.WellFormed
  results : ∀ r ∈ c.results, r.WellFormed
  last : c.last.WellFormed

/-- The highest-ranked outcome of its results; without any, what its status says. -/
def outcome (c : Case) : Outcome :=
  let kinds := c.results.map CaseResult.kind
  if .error ∈ kinds then .error
  else if .failure ∈ kinds then .failed
  else if .skipped ∈ kinds then .skipped
  else if c.tag.value "status" = bytesOf "no asserts" ∨ c.tag.value "status" = bytesOf "risky" then
    .noAssertions
  else .passed

/-- The message of its last result. -/
def message (c : Case) : Text := (c.results.getLast?.map CaseResult.message).getD []

/-- How many elements are open in it at once. -/
def depth (c : Case) : Nat := if c.results = [] then 1 else 2

end Case

/-- What a report tells of a case. -/
structure ToldCase where
  suite : Text
  name : Text
  outcome : Outcome
  message : Text

def Case.told (c : Case) (suite : Text) : ToldCase where
  suite := if c.tag.value "classname" = [] then suite else c.tag.value "classname"
  name := c.tag.value "name"
  outcome := c.outcome
  message := c.message

/-- What a suite is called: its package, if it has one, and its name. -/
def Tag.suiteName (tag : Tag) : Text :=
  if tag.value "package" ≠ [] ∧ tag.value "name" ≠ [] then
    tag.value "package" ++ '/' :: tag.value "name"
  else tag.value "name"

/-- What stands inside of a suite. -/
inductive Body
  | last (gap : Content)
  | case (gap : Content) (test : Case) (rest : Body)
  | suite (gap : Content) (tag : Tag) (inner : Body) (rest : Body)

namespace Body

def text : Body → Text
  | .last gap => gap.text
  | .case gap test rest => gap.text ++ test.text ++ rest.text
  | .suite gap tag inner rest =>
    gap.text ++ tag.openText (bytesOf "testsuite") ++ inner.text ++ tag.closeText (bytesOf "testsuite") ++ rest.text

def WellFormed : Body → Prop
  | .last gap => gap.WellFormed
  | .case gap test rest => gap.WellFormed ∧ test.WellFormed ∧ rest.WellFormed
  | .suite gap tag inner rest => gap.WellFormed ∧ tag.WellFormed ∧ inner.WellFormed ∧ rest.WellFormed

def depth : Body → Nat
  | .last _ => 0
  | .case _ test rest => max test.depth rest.depth
  | .suite _ _ inner rest => max (inner.depth + 1) rest.depth

/-- The cases in the order of the document, each with its class name or else with the innermost suite's name. -/
def cases (suite : Text) : Body → List ToldCase
  | .last _ => []
  | .case _ test rest => test.told suite :: rest.cases suite
  | .suite _ tag inner rest => inner.cases tag.suiteName ++ rest.cases suite

/-- Every case that stands here itself has a class name. -/
def Named : Body → Prop
  | .last _ => True
  | .case _ test rest => test.tag.value "classname" ≠ [] ∧ rest.Named
  | .suite _ _ _ rest => rest.Named

/-- Behind a suite inside of a suite that has a name, every case has a class name. -/
def Ordered (suite : Text) : Body → Prop
  | .last _ => True
  | .case _ _ rest => rest.Ordered suite
  | .suite _ tag inner rest => inner.Ordered tag.suiteName ∧ (suite = [] ∨ rest.Named) ∧ rest.Ordered suite

end Body

/-- A whole report: a declaration, and one element with a body. -/
structure Document where
  -- white space before and behind the declaration and the element
  first : Text
  declaration : Option Text
  second : Text
  suites : Bool
  tag : Tag
  body : Body
  last : Text

namespace Document

def rootName (d : Document) : Text := if d.suites then bytesOf "testsuites" else bytesOf "testsuite"

def text (d : Document) : Text :=
  d.first ++ (d.declaration.elim [] fun words => bytesOf "<?" ++ words ++ bytesOf "?>") ++ d.second ++
    d.tag.openText d.rootName ++ d.body.text ++ d.tag.closeText d.rootName ++ d.last

structure WellFormed (d : Document) : Prop where
  outside : '<' ∉ d.first ++ d.second ++ d.last
  declaration : ∀ words ∈ d.declaration, '>' ∉ words
  tag : d.tag.WellFormed
  body : d.body.WellFormed

def depth (d : Document) : Nat := d.body.depth + 1

/-- The name of the suite that the root is. -/
def suite (d : Document) : Text := if d.suites then [] else d.tag.suiteName

def cases (d : Document) : List ToldCase := d.body.cases d.suite

/-- No case that takes its suite's name stands behind a suite inside of that suite. -/
def Ordered (d : Document) : Prop := d.body.Ordered d.suite

end Document

end Didi.Reports
