import Didi.Export.Strings
import Didi.Lib.OrderedMap
import Didi.Lib.Worklist
import Didi.Scenario.Sha256

/-!
# The files a run depends on

* `Project` : what a walk of the project's directories yields, and what can be read;
* `referencesIn`, `classNameIndex`, `classesUsedIn` : what a file reaches;
* `collectProofFiles` : the files that the seeds reach, with their digests;
* `changedScenarioFiles` : those whose digest is another one now.
-/

namespace Didi.Scenario
open Config

structure Project where
  /-- The names from the root to each entry that is no directory, in the order of a walk of the directories. -/
  walk : List (List Text)
  /-- The bytes of a regular file that opens, by its path from the root. -/
  read : Text → Option Text

/-! ## Paths -/

def projectGodot : Text := "project.godot".toList

def resPrefix : Text := "res://".toList

def afterLast (c : Char) (text : Text) : Text := (text.reverse.takeWhile (· ≠ c)).reverse

def lowerExtension (path : Text) : Text :=
  let name := afterLast '/' path
  if name.contains '.' then (afterLast '.' name).map Char.toLower else []

/-- What a run depends on and this follows. -/
def followed (path : Text) : Bool :=
  lowerExtension path ∈ ["gd", "cs", "tscn", "scn", "tres", "res", "gdshader", "gdshaderinc"].map String.toList

def joinNames (names : List Text) : Text := ['/'].intercalate names

/-- One name of a path that is made normal: a dot goes, and two dots take the name before them. -/
def normalStep (kept : List Text) (name : Text) : List Text :=
  if name = [] || name = ['.'] then kept
  else if name = ['.', '.'] then
    match kept.getLast? with
    | some last => if last = ['.', '.'] then kept ++ [name] else kept.dropLast
    | none => [name]
  else kept ++ [name]

/-- `lexically_normal` of a relative path: it keeps the slash at the end of what names a directory. -/
def lexicallyNormal (path : Text) : Text :=
  let names := path.splitOn '/'
  let kept := names.foldl normalStep []
  if kept.isEmpty then ['.']
  else if kept.getLast? ≠ some ['.', '.'] && names.getLast?.getD [] ∈ [[], ['.'], ['.', '.']] then joinNames kept ++ ['/']
  else joinNames kept

/-- The file that a path names below the root, by its path from there. -/
def fileUnder (path : Text) : Option Text :=
  if path = projectGodot then some projectGodot
  else if !resPrefix.isPrefixOf path then none
  else
    let relative := path.drop 6
    if relative.isEmpty || relative.head? = some '/' then none
    else
      let normal := lexicallyNormal relative
      if normal.takeWhile (· ≠ '/') = ['.', '.'] then none else some normal

def Project.bytesOf (project : Project) (path : Text) : Option Text := (fileUnder path).bind project.read

/-! ## What a file reaches -/

/-- The matches of a pattern, each looked for behind the one before; a pattern answers what it captured and what
follows its match. -/
def matchesOf (pattern : Text → Option (Text × Text)) : Nat → Text → List Text
  | 0, _ => []
  | _, [] => []
  | fuel + 1, c :: text =>
    match pattern (c :: text) with
    | some (found, after) => found :: matchesOf pattern fuel after
    | none => matchesOf pattern fuel text

def allMatches (pattern : Text → Option (Text × Text)) (text : Text) : List Text :=
  matchesOf pattern (text.length + 1) text

/-- `(res://[^stops]+)` and a character that closes it. -/
def resPath (stops closes : Char → Bool) (text : Text) : Option (Text × Text) := do
  let rest ← following "res://" text
  let body := rest.takeWhile fun c => !stops c
  match body, rest.drop body.length with
  | [], _ => none
  | _, c :: after => if closes c then some (resPrefix ++ body, after) else none
  | _, [] => none

/-- `path="(res://[^"]+)"`. -/
def quotedPath (text : Text) : Option (Text × Text) := do
  resPath (· = '"') (· = '"') (← following "path=\"" text)

/-- `\[ext_resource[^\]]*path="(res://[^"]+)"`: the path that stands last before a bracket closes. -/
def extResource (text : Text) : Option (Text × Text) := do
  let rest ← following "[ext_resource" text
  let run := rest.takeWhile (· ≠ ']')
  (List.range (run.length + 1)).reverse.findSome? fun i => quotedPath (rest.drop i)

/-- `["'](res://[^"'\r\n]+)["']`. -/
def literal : Text → Option (Text × Text)
  | c :: text => if isQuote c then resPath (fun c => isQuote c || c = '\r' || c = '\n') isQuote text else none
  | [] => none

/-- `[A-Za-z_][A-Za-z0-9_]*`. -/
def identifier : Text → Option (Text × Text)
  | c :: text =>
    if isIdentifierStart c then some (c :: text.takeWhile isIdentifierChar, text.dropWhile isIdentifierChar) else none
  | [] => none

def referencesIn (path bytes : Text) : List Text :=
  let extension := lowerExtension path
  if extension ∈ ["tscn", "tres"].map String.toList then allMatches extResource bytes
  else if extension ∈ ["gd", "cs", "gdshader", "gdshaderinc"].map String.toList then allMatches literal bytes
  else []

/-- `^[ \t]*class_name[ \t]+([A-Za-z_][A-Za-z0-9_]*)`. -/
def declared (line : Text) : Option Text := do
  let rest ← following "class_name" (line.dropWhile isBlankChar)
  if (rest.head?.map isBlankChar).getD false then
    let (name, _) ← identifier (rest.dropWhile isBlankChar)
    some name
  else none

/-- Whether a walk stays out of the directories on the way. -/
def skipped (directories : List Text) : Bool :=
  (match directories with
    | [] => false
    | top :: _ => top = "addons".toList || "build".toList.isPrefixOf top) ||
  directories.any fun name => name.head? = some '.'

/-- Whether the extension of a file name is `.gd`. -/
def isScriptName (name : Text) : Bool := ".gd".toList.isSuffixOf name && 3 < name.length

/-- The scripts that a project names with `class_name`, by name; the first one of a name is the one that counts. -/
def classNameIndex (project : Project) : List (Text × Text) :=
  let scripts := (project.walk.filter fun names => !skipped names.dropLast && isScriptName (names.getLast?.getD [])).take
    10000
  scripts.filterMap fun names => do
    let bytes ← project.read (joinNames names)
    if 512 * 1024 < bytes.length then none
    else
      let name ← (bytes.splitOn '\n').findSome? declared
      some (name, resPrefix ++ joinNames names)

/-- The scripts of the classes that a text names, by the first place of each name. -/
def classesUsedIn (bytes : Text) (index : List (Text × Text)) : List Text :=
  (allMatches identifier bytes).eraseDups.filterMap fun word => index.lookup word

/-! ## The closure -/

/-- The paths of the autoloads, in the order of their names; none when the project does not load. -/
def readProjectAutoloads (project : Project) : List Text :=
  match project.read projectGodot with
  | none => []
  | some contents =>
    let scanned := scan contents
    if (refuseUnloadable scanned "listing the autoloads in it").isSome then []
    else
      let found := scanned.entries.foldl (fun (found : OrderedMap Text Text) e =>
        if e.sectionName = "autoload".toList && !e.key.isEmpty then
          let value := Export.unquote e.valueText
          found.insert e.key (if value.head? = some '*' then value.drop 1 else value)
        else found) ∅
      found.entries.map Prod.snd

def kMaxScenarioFiles : Nat := 256

structure ScenarioFile where
  path : Text
  /-- Empty when the file cannot be read. -/
  sha256 : Text
  deriving DecidableEq

@[ext]
structure ScenarioFiles where
  files : List ScenarioFile
  truncated : Bool
  deriving DecidableEq

def currentDigest (project : Project) (path : Text) : Text :=
  match project.bytesOf path with
  | some bytes => sha256Hex bytes
  | none => []

/-- The starting files, in the order in which they are queued. -/
def startingFiles (project : Project) (seeds : List Text) : List Text :=
  projectGodot :: readProjectAutoloads project ++ seeds

/-- Whether a file that is reached is recorded: what a run names is, whatever it is and wherever it is; what those
files reach is followed into code and scenes only, and nowhere under `addons`. -/
def admits (project : Project) (seeds : List Text) (path : Text) : Bool :=
  let seeded := seeds.contains path || (readProjectAutoloads project).contains path
  (path = projectGodot || seeded || followed path) && (seeded || !"res://addons/".toList.isPrefixOf path) &&
    (fileUnder path).isSome

/-- What a recorded file refers to, with the classes of an index. -/
def refersTo (project : Project) (index : List (Text × Text)) (path : Text) : List Text :=
  match project.bytesOf path with
  | none => []
  | some bytes =>
    referencesIn path bytes ++ if lowerExtension path = "gd".toList then classesUsedIn bytes index else []

def collectProofFiles (project : Project) (seeds : List Text) : ScenarioFiles :=
  let index := classNameIndex project
  let collected := Worklist.collect (admits project seeds) (refersTo project index) kMaxScenarioFiles []
    (startingFiles project seeds)
  { files := (collected.visited.map fun path => { path, sha256 := currentDigest project path }).insertionSort
      fun left right => left.path ≤ right.path
    truncated := collected.truncated }

def changedScenarioFiles (project : Project) (recorded : List ScenarioFile) : List ScenarioFile :=
  recorded.filterMap fun file =>
    let now := currentDigest project file.path
    if now ≠ file.sha256 then some { path := file.path, sha256 := now } else none

end Didi.Scenario
