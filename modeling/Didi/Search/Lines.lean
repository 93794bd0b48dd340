import Didi.Common.Validators
import Didi.Script.Readers

/-!
# The text search

* `occurrences` : the places in a line that the search looks at;
* `standsAlone` : whether no identifier byte is beside one, where whole words are asked for;
* `searchLine`, `searchFile`, `searchText` : the search of files, which returns as soon as it has enough.

A file is its bytes, or none where it cannot be read. The files are those that the walk of the project collects, each
under a path of its own.
-/

namespace Didi.Search
open Didi.Config Didi.Script

structure SearchOptions where
  query : Text
  caseSensitive : Bool := true
  wholeWord : Bool := false
  maxResults : Nat := 100

structure FileRecord where
  resourcePath : Text
  bytes : Option (List UInt8)

/-- The files that are searched. -/
structure Collected where
  files : List FileRecord
  skippedFiles : Nat := 0
  truncated : Bool := false
  nodup : (files.map FileRecord.resourcePath).Nodup

structure TextMatch where
  path : Text
  line : Nat
  column : Nat
  preview : Text
  deriving DecidableEq

structure SearchResponse where
  found : List TextMatch := []
  diagnostics : List (Text × String) := []
  scannedFiles : Nat := 0
  skippedFiles : Nat := 0
  truncated : Bool := false

def textOf (bytes : List UInt8) : Text := bytes.map fun b => Char.ofNat b.toNat

def readTextFile (file : FileRecord) : Except Error Text :=
  match file.bytes with
  | none => .error (.internal "unreadable")
  | some bytes =>
    if Validators.isValidUtf8Text bytes then .ok (textOf bytes)
    else .error { code := 415, message := "binary_or_invalid_utf8" }

def asciiFold (value : Text) : Text := value.map Char.toLower

/-- What is compared, of the query and of a line. -/
def SearchOptions.folded (options : SearchOptions) (value : Text) : Text :=
  if options.caseSensitive then value else asciiFold value

/-- `find` and the jump behind what it found, byte by byte: `skip` bytes are still to be jumped over. -/
def occurrences (query : Text) : Nat → Nat → Text → List Nat
  | _, _, [] => []
  | offset, skip + 1, _ :: rest => occurrences query (offset + 1) skip rest
  | offset, 0, c :: rest =>
    if query.isPrefixOf (c :: rest) then offset :: occurrences query (offset + 1) (max 1 query.length - 1) rest
    else occurrences query (offset + 1) 0 rest

/-- No identifier byte on either side, where a whole word is asked for. -/
def standsAlone (options : SearchOptions) (haystack : Text) (start : Nat) : Bool :=
  let after := start + options.query.length
  let leftOk := !options.wholeWord || start = 0 || !(haystack[start - 1]?).any isIdentifierByte
  let rightOk := !options.wholeWord || after = haystack.length || !(haystack[after]?).any isIdentifierByte
  leftOk && rightOk

def previewOf (line : Text) : Text := line.take kSearchMaxPreviewBytes

/-- A match is added, and the search returns with the last one there is room for. -/
def addMatch (options : SearchOptions) (response : SearchResponse) (result : TextMatch) :
    Except SearchResponse SearchResponse :=
  let response := { response with found := response.found ++ [result] }
  if options.maxResults ≤ response.found.length then .error { response with truncated := true } else .ok response

def searchLine (options : SearchOptions) (path : Text) (response : SearchResponse) (entry : Text × Nat) :
    Except SearchResponse SearchResponse :=
  let line := entry.1
  let haystack := options.folded line
  (occurrences (options.folded options.query) 0 0 haystack).foldlM (fun response start =>
    if standsAlone options haystack start then
      addMatch options response { path, line := entry.2, column := columnOf line start, preview := previewOf line }
    else .ok response) response

def searchFile (options : SearchOptions) (response : SearchResponse) (file : FileRecord) :
    Except SearchResponse SearchResponse :=
  match readTextFile file with
  | .error e => .ok { response with
      skippedFiles := response.skippedFiles + 1
      diagnostics := response.diagnostics ++ [(file.resourcePath, e.message)] }
  | .ok contents =>
    ((fileLines contents).zipIdx 1).foldlM (searchLine options file.resourcePath)
      { response with scannedFiles := response.scannedFiles + 1 }

def searchText (options : SearchOptions) (collected : Collected) : Except Error SearchResponse := do
  validateCommon { query := options.query, maxResults := options.maxResults }
  let response : SearchResponse := { skippedFiles := collected.skippedFiles, truncated := collected.truncated }
  return match collected.files.foldlM (searchFile options) response with
    | .error returned => returned
    | .ok response => response

end Didi.Search
