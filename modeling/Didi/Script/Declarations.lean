import Didi.Config.Text

/-!
# The declarations of a script

* `codeOutsideGdscriptLiterals` : a line with its literals blanked out and its comment cut off;
* `maskGdscriptLine` : the line that the symbol search reads, blanked out in place;
* `parseDeclaration` : what a line declares.
-/

namespace Didi.Script
open Didi.Config

/-! ## Literals and comments -/

/-- `multiline_delimiter`, by its quote. -/
abbrev Delimiter := Option Char

/-- What a byte of a line stands in. -/
inductive Lexing
  | code
  | multiline (quote : Char)
  | quoted (quote : Char)
deriving DecidableEq

namespace Lexing

/-- A quoted literal ends with its line. -/
def atEnd : Lexing → Delimiter
  | .multiline quote => some quote
  | _ => none

def ofDelimiter : Delimiter → Lexing
  | some quote => .multiline quote
  | none => .code

end Lexing

/-- Three of a quote. -/
def startsTriple (quote : Char) : Text → Bool
  | a :: b :: c :: _ => a = quote && b = quote && c = quote
  | _ => false

/-- A byte before what is read of the others. -/
def readOn (c : Char) (read : Text × Delimiter) : Text × Delimiter := (c :: read.1, read.2)

/-- The code of a line, and what the next line begins in. The bytes to blank out still are counted by `skip`. -/
def codeFrom : Nat → Lexing → Text → Text × Delimiter
  | _, lexing, [] => ([], lexing.atEnd)
  | skip + 1, lexing, _ :: rest => readOn ' ' (codeFrom skip lexing rest)
  | 0, .multiline quote, c :: rest =>
    if c = '\\' ∧ rest ≠ [] then readOn ' ' (codeFrom 1 (.multiline quote) rest)
    else if startsTriple quote (c :: rest) then readOn ' ' (codeFrom 2 .code rest)
    else readOn ' ' (codeFrom 0 (.multiline quote) rest)
  | 0, .quoted quote, c :: rest =>
    if c = '\\' ∧ rest ≠ [] then readOn ' ' (codeFrom 1 (.quoted quote) rest)
    else if c = quote then readOn ' ' (codeFrom 0 .code rest)
    else readOn ' ' (codeFrom 0 (.quoted quote) rest)
  | 0, .code, c :: rest =>
    if c = '#' then ([], none)
    else if isQuote c && startsTriple c (c :: rest) then readOn ' ' (codeFrom 2 (.multiline c) rest)
    else if isQuote c then readOn ' ' (codeFrom 0 (.quoted c) rest)
    else readOn c (codeFrom 0 .code rest)

def codeOutsideGdscriptLiterals (line : Text) (delimiter : Delimiter) : Text × Delimiter :=
  codeFrom 0 (.ofDelimiter delimiter) line

/-- `GdscriptMaskState`, and the flags of the line. -/
structure MaskState where
  tripleQuote : Option Char := none
  single : Bool := false
  doubleQuote : Bool := false
  escaped : Bool := false

/-- The line blanked out in place, and the triple quote that it leaves open. -/
def maskFrom : Nat → MaskState → Text → Text × Option Char
  | _, state, [] => ([], state.tripleQuote)
  | skip + 1, state, _ :: rest => readOn ' ' (maskFrom skip state rest)
  | 0, state, c :: rest =>
    match state.tripleQuote with
    | some quote =>
      if c = '\\' ∧ rest ≠ [] then readOn ' ' (maskFrom 1 state rest)
      else if startsTriple quote (c :: rest) then readOn ' ' (maskFrom 2 { state with tripleQuote := none } rest)
      else readOn ' ' (maskFrom 0 state rest)
    | none =>
      if state.escaped then readOn ' ' (maskFrom 0 { state with escaped := false } rest)
      else if (state.single || state.doubleQuote) && c = '\\' then
        readOn ' ' (maskFrom 0 { state with escaped := true } rest)
      else if !state.single && !state.doubleQuote && isQuote c && startsTriple c (c :: rest) then
        readOn ' ' (maskFrom 2 { state with tripleQuote := some c } rest)
      else if !state.doubleQuote && c = '\'' then
        readOn ' ' (maskFrom 0 { state with single := !state.single } rest)
      else if !state.single && c = '"' then
        readOn ' ' (maskFrom 0 { state with doubleQuote := !state.doubleQuote } rest)
      else if !state.single && !state.doubleQuote && c = '#' then (List.replicate (rest.length + 1) ' ', none)
      else readOn (if state.single || state.doubleQuote then ' ' else c) (maskFrom 0 state rest)

def maskGdscriptLine (line : Text) (tripleQuote : Option Char) : Text × Option Char :=
  maskFrom 0 { tripleQuote } line

/-! ## One declaration -/

inductive SymbolKind
  | function
  | variable
  | constant
  | signal
  | enum
  | klass
deriving DecidableEq

structure GDScriptDeclaration where
  name : Text
  kind : SymbolKind
  source : Text
  exported : Bool := false
  -- where the name begins in `source`
  nameOffset : Nat := 0
deriving DecidableEq

/-- `strings::isIdentifierByte`. -/
def isIdentifierByte (c : Char) : Bool := 128 ≤ c.toNat || c.isAlphanum || c = '_'

def depthAfter (depth : Nat) (c : Char) : Nat :=
  if c = '(' then depth + 1 else if c = ')' then depth - 1 else depth

/-- What follows the parenthesis that closes the first one. -/
def closeArguments : Nat → Text → Option Text
  | _, [] => none
  | depth, c :: rest => if depthAfter depth c = 0 then some rest else closeArguments (depthAfter depth c) rest

/-- `@export` and what begins with `export_`, save the headings of the inspector. -/
def isExport (annotationName : Text) : Bool :=
  annotationName = "export".toList ||
    ("export_".toList.isPrefixOf annotationName &&
      !(annotationName = "export_group".toList || annotationName = "export_category".toList ||
        annotationName = "export_subgroup".toList))

/-- What follows the arguments that a text begins with, if it begins with some. -/
def skipArguments (text : Text) : Option Text :=
  if text.head? = some '(' then closeArguments 0 text else some text

/-- What follows the annotations that a line begins with, and whether one of them exports. -/
def skipAnnotations : Nat → Bool → Text → Option (Bool × Text)
  | 0, exported, text => some (exported, text)
  | fuel + 1, exported, text =>
    if text.head? ≠ some '@' then some (exported, text)
    else
      let annotation := text.tail.takeWhile isIdentifierChar
      if annotation = [] then none
      else
        (skipArguments ((text.tail.dropWhile isIdentifierChar).dropWhile isSpace)).bind fun rest =>
          skipAnnotations fuel (exported || isExport annotation) (rest.dropWhile isSpace)

def prefixes : List (Text × SymbolKind) :=
  [("class_name ".toList, .klass), ("static func ".toList, .function), ("func ".toList, .function),
    ("signal ".toList, .signal), ("var ".toList, .variable), ("const ".toList, .constant), ("enum ".toList, .enum),
    ("class ".toList, .klass)]

/-- The declaration that a text begins with. -/
def readDeclaration (exported : Bool) (source : Text) : Option GDScriptDeclaration :=
  match prefixes.find? fun p => p.1.isPrefixOf source with
  | none => none
  | some (keyword, kind) =>
    let name := (source.drop keyword.length).takeWhile isIdentifierByte
    if name = [] then none else some { name, kind, source, exported, nameOffset := keyword.length }

def parseDeclaration (codeLine : Text) : Option GDScriptDeclaration :=
  let text := codeLine.dropWhile isBlankChar
  match skipAnnotations text.length false text with
  | none => none
  | some (exported, source) => readDeclaration exported source

end Didi.Script
