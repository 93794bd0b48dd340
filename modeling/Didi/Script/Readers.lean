import Mathlib.Data.List.Infix
import Didi.Common
import Didi.Config.Settings
import Didi.Script.Declarations

/-!
# The readers of a script

* `findDeclarationLines`, `declaresSymbol` : the lines that a patch matches, as they stand;
* `extractSymbols` : the symbols of a script, up to a number and a size;
* `searchSymbols` : the search of one script.
-/

namespace Didi.Script
open Didi.Config

/-! ## Lines above and around -/

def getIndentLevel : Text → Nat
  | '\t' :: rest => 4 + getIndentLevel rest
  | ' ' :: rest => 1 + getIndentLevel rest
  | _ => 0

/-- The declaration that a line sits inside: `limit` is its indentation, and the lines above it are read upwards. -/
def enclosingDeclaration : Nat → List Text → Option GDScriptDeclaration
  | _, [] => none
  | limit, candidate :: above =>
    if stringsTrim candidate = [] then enclosingDeclaration limit above
    else if limit ≤ getIndentLevel candidate then enclosingDeclaration limit above
    else (parseDeclaration candidate).or (enclosingDeclaration (getIndentLevel candidate) above)

/-- A variable is asked for under the name of a constant as well. -/
def kindMatches (symbolType kind : SymbolKind) : Bool :=
  if symbolType = .variable then kind = .variable || kind = .constant else kind = symbolType

/-- What follows a text that another one begins with. -/
def dropStart (start text : Text) : Option Text := if start.isPrefixOf text then some (text.drop start.length) else none

/-- `(extends\s+("[^"]*"|[\w.]+)\s*)?:`. -/
def endsInnerClass (text : Text) : Bool :=
  match dropStart "extends".toList text with
  | none => text.head? = some ':'
  | some rest =>
    (rest.takeWhile isSpace ≠ []) &&
      match rest.dropWhile isSpace with
      | '"' :: rest =>
        match rest.dropWhile (· ≠ '"') with
        | [] => false
        | _ :: rest => (rest.dropWhile isSpace).head? = some ':'
      | rest =>
        let base := rest.takeWhile fun c => isIdentifierChar c || c = '.'
        base ≠ [] && ((rest.drop base.length).dropWhile isSpace).head? = some ':'

/-- `class\s+name\s*(extends\s+("[^"]*"|[\w.]+)\s*)?:`, at the first byte that is no space. -/
def matchesInnerClass (name line : Text) : Bool :=
  match dropStart "class".toList (line.dropWhile isSpace) with
  | none => false
  | some rest =>
    (List.range (rest.takeWhile isSpace).length).any fun spaces =>
      match dropStart name (rest.drop (spaces + 1)) with
      | none => false
      | some rest => endsInnerClass (rest.dropWhile isSpace)

/-- A line that declares the symbol. -/
def declaresHere (symbolName : Text) (symbolType : SymbolKind) (line : Text) : Bool :=
  if symbolType = .klass then matchesInnerClass symbolName line
  else
    match parseDeclaration line with
    | none => false
    | some declaration => declaration.name = symbolName && kindMatches symbolType declaration.kind

/-- The lines that declare the symbol, each with whether it is a member. -/
def matchesFrom (symbolName : Text) (symbolType : SymbolKind) (above : List Text) (index : Nat) :
    List Text → List (Nat × Bool)
  | [] => []
  | line :: below =>
    let rest := matchesFrom symbolName symbolType (line :: above) (index + 1) below
    if declaresHere symbolName symbolType line then
      let isMember := match enclosingDeclaration (getIndentLevel line) above with
        | none => true
        | some declaration => declaration.kind = .klass
      (index, isMember) :: rest
    else rest

example (name : Text) : matchesFrom name .function [] 0 [[]] = [] := by
  rw [matchesFrom, matchesFrom]
  rfl

/-- The lines that declare the symbol: the members among them, if there are any. -/
def findDeclarationLines (lines : List Text) (symbolName : Text) (symbolType : SymbolKind) : List Nat :=
  let found := matchesFrom symbolName symbolType [] 0 lines
  let members := found.filter Prod.snd
  (if members = [] then found else members).map Prod.fst

/-! ## The readers -/

def declaresSymbol (sourceText symbolName : Text) (symbolType : SymbolKind) : Bool :=
  symbolName ≠ [] && findDeclarationLines (sourceText.splitOn '\n') symbolName symbolType ≠ []

/-- A value in an entry. -/
inductive FieldValue
  | text (bytes : Text)
  | flag (value : Bool)
  | number (value : Nat)
deriving DecidableEq

/-- An entry of one of the six lists. -/
structure SymbolEntry where
  kind : SymbolKind
  name : Text
  -- beside the name and the line
  others : List (String × FieldValue) := []
  line : Nat
deriving DecidableEq

/-- The bytes that `dump` writes for one of a text. -/
def dumpedByte (c : Char) : Nat := if 128 ≤ c.toNat then 1 else Json.escapedSize c

def FieldValue.dumpSize : FieldValue → Nat
  | .text bytes => 2 + (bytes.map dumpedByte).sum
  | .flag value => if value then 4 else 5
  | .number value => (toString value).utf8ByteSize

/-- The length of what `dump` writes for an entry: braces, then names, colons, values and commas. -/
def SymbolEntry.dumpSize (entry : SymbolEntry) : Nat :=
  let fields := ("name", .text entry.name) :: entry.others ++ [("line", .number entry.line)]
  1 + (fields.map fun field => Json.stringSize field.1 + 1 + field.2.dumpSize + 1).sum

def kMaxToolResponseBytes : Nat := 8 * 1024 * 1024

def kToolResponseEnvelopeReserveBytes : Nat := 256 * 1024

def toolResponseBodyBudget : Nat := kMaxToolResponseBytes - kToolResponseEnvelopeReserveBytes

structure Symbols where
  entries : List SymbolEntry := []
  total : Nat := 0
  returned : Nat := 0
  estimatedBytes : Nat := 0
deriving DecidableEq

def Symbols.truncated (symbols : Symbols) : Bool := symbols.returned < symbols.total

/-- An entry is counted, and kept while there is room. -/
def Symbols.add (maxSymbols : Nat) (symbols : Symbols) (entry : SymbolEntry) : Symbols :=
  let entryBytes := entry.dumpSize + 2
  if maxSymbols ≤ symbols.returned ∨ toolResponseBodyBudget < symbols.estimatedBytes + entryBytes then
    { symbols with total := symbols.total + 1 }
  else
    { entries := symbols.entries ++ [entry]
      total := symbols.total + 1
      returned := symbols.returned + 1
      estimatedBytes := symbols.estimatedBytes + entryBytes }

/-- What is between the first opening parenthesis and the last closing one, and what follows. -/
def argumentsOf (tail : Text) : Option (Text × Text) :=
  let before := tail.takeWhile (· ≠ '(')
  let inner := (tail.drop (before.length + 1)).rdropWhile (· ≠ ')')
  if before.length = tail.length ∨ inner = [] then none
  else some (inner.dropLast, tail.drop (before.length + 1 + inner.length))

/-- An identifier, with the element list in brackets that a container type carries. -/
def readTypeAnnotation (text : Text) : Text :=
  let start := text.dropWhile isBlankChar
  let word := start.takeWhile isIdentifierByte
  let after := start.drop word.length
  if word = [] then []
  else
    match after.dropWhile isBlankChar with
    | '[' :: rest =>
      let inside := rest.takeWhile (· ≠ ']')
      if inside.length = rest.length then word
      else word ++ after.takeWhile isBlankChar ++ '[' :: inside ++ [']']
    | _ => word

/-- The `: Type` after a name, unless the colon belongs to a value. -/
def readColonType (tail : Text) : Text :=
  let before := tail.takeWhile (· ≠ ':')
  if before.length = tail.length ∨ '=' ∈ before then [] else readTypeAnnotation (tail.drop (before.length + 1))

/-- What follows the first arrow. -/
def afterArrow : Text → Option Text
  | '-' :: '>' :: rest => some rest
  | _ :: rest => afterArrow rest
  | [] => none

def typeOrVariant (type : Text) : Text := if type = [] then "Variant".toList else type

/-- The entry of a declaration; a function has one only when its parameters stand on its line. -/
def entryOf (declaration : GDScriptDeclaration) (exported : Bool) (line : Nat) : Option SymbolEntry :=
  let tail := declaration.source.drop (declaration.nameOffset + declaration.name.length)
  let entry (others : List (String × FieldValue)) : SymbolEntry :=
    { kind := declaration.kind, name := declaration.name, others, line }
  match declaration.kind with
  | .function =>
    (argumentsOf tail).map fun (parameters, after) => entry
      [("parameters", .text parameters), ("return_type", .text ((afterArrow after).elim "void".toList readTypeAnnotation))]
  | .variable => some (entry [("exported", .flag exported), ("type", .text (typeOrVariant (readColonType tail)))])
  | .constant =>
    let value := stringsTrim ((tail.dropWhile (· ≠ '=')).drop 1)
    some (entry [("type", .text (typeOrVariant (readColonType tail))), ("value", .text value)])
  | .signal => some (entry [("arguments", .text ((argumentsOf tail).elim [] Prod.fst))])
  | .enum => some (entry [])
  | .klass => some (entry [])

/-- Where the extraction is in a script. -/
structure Extraction where
  delimiter : Delimiter := none
  pendingExport : Bool := false
  line : Nat := 1
  symbols : Symbols := {}

def extractLine (maxSymbols : Nat) (state : Extraction) (line : Text) : Extraction :=
  let (masked, delimiter) := codeOutsideGdscriptLiterals line state.delimiter
  let next : Extraction := { state with delimiter, line := state.line + 1 }
  match parseDeclaration masked with
  | none =>
    let trimmed := stringsTrim masked
    if ['@'].isPrefixOf trimmed then
      match parseDeclaration (trimmed ++ " var __didi_annotation".toList) with
      | none => next
      | some annotation => { next with pendingExport := state.pendingExport || annotation.exported }
    else if trimmed ≠ [] then { next with pendingExport := false }
    else next
  | some declaration =>
    match entryOf declaration (declaration.exported || state.pendingExport) state.line with
    | none => { next with pendingExport := false }
    | some entry => { next with pendingExport := false, symbols := state.symbols.add maxSymbols entry }

def extractSymbols (sourceText : Text) (maxSymbols : Nat) : Symbols :=
  ((sourceText.splitOn '\n').foldl (extractLine maxSymbols) {}).symbols

/-! ## The search -/

inductive SymbolMatch
  | exact
  | leading
  | contains
deriving DecidableEq

structure SymbolSearchOptions where
  query : Text
  caseSensitive : Bool := true
  maxResults : Nat := 100
  matching : SymbolMatch := .leading
  kinds : List SymbolKind := [.klass, .function, .signal, .variable, .constant, .enum]

structure SearchMatch where
  path : Text
  line : Nat
  column : Nat
  preview : Text
  name : Text
  kind : SymbolKind
  language : String
deriving DecidableEq

def kSearchMaxQueryCharacters : Nat := 256

def kSearchMaxResults : Nat := 500

def kSearchMaxPreviewBytes : Nat := 1024

def validateCommon (options : SymbolSearchOptions) : Except Error Unit :=
  if options.query = [] ∨ kSearchMaxQueryCharacters < codePointCount options.query ∨ '\x00' ∈ options.query then
    .error (.invalidArgument "query must contain 1 to 256 characters and no NUL")
  else if options.maxResults < 1 ∨ kSearchMaxResults < options.maxResults then
    .error (.invalidArgument "max_results must be from 1 to 500")
  else .ok ()

def symbolMatches (name : Text) (options : SymbolSearchOptions) : Bool :=
  let candidate := if options.caseSensitive then name else name.map Char.toLower
  let query := if options.caseSensitive then options.query else options.query.map Char.toLower
  match options.matching with
  | .exact => candidate = query
  | .leading => query.isPrefixOf candidate
  | .contains => query <:+: candidate

/-- The place of the first occurrence. -/
def findText (needle : Text) : Text → Option Nat
  | [] => if needle = [] then some 0 else none
  | c :: rest => if needle.isPrefixOf (c :: rest) then some 0 else (findText needle rest).map (· + 1)

def columnOf (line : Text) (offset : Nat) : Nat := 1 + codePointCount (line.take offset)

/-- The lines of a script, searched until there are enough matches. -/
def searchLines (options : SymbolSearchOptions) (path : Text) : Nat → Option Char → Nat → List Text →
    List SearchMatch × Bool
  | _, _, _, [] => ([], false)
  | lineNumber, tripleQuote, found, line :: lines =>
    let (masked, next) := maskGdscriptLine line tripleQuote
    match parseDeclaration masked with
    | none => searchLines options path (lineNumber + 1) next found lines
    | some declaration =>
      if !options.kinds.contains declaration.kind || !symbolMatches declaration.name options then
        searchLines options path (lineNumber + 1) next found lines
      else
        let column := ((findText declaration.name line).map (columnOf line)).getD 1
        let result : SearchMatch :=
          { path, line := lineNumber, column, preview := line.take kSearchMaxPreviewBytes, name := declaration.name
            kind := declaration.kind, language := "gdscript" }
        if options.maxResults ≤ found + 1 then ([result], true)
        else
          let (results, truncated) := searchLines options path (lineNumber + 1) next (found + 1) lines
          (result :: results, truncated)

/-- The search of one script. -/
def searchSymbols (options : SymbolSearchOptions) (path contents : Text) : Except Error (List SearchMatch × Bool) := do
  validateCommon options
  return searchLines options path 1 none 0 (fileLines contents)

end Didi.Script
