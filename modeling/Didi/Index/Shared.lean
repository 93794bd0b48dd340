import Didi.Common
import Mathlib.Data.List.Sort
import Mathlib.Data.String.Basic
import Mathlib.Order.Basic
import Mathlib.Algebra.GroupWithZero.Nat
import Didi.Lib.OrderedMap
import Didi.Lib.Run

/-!
# The scan of a project, and the shared index

* `Node`, `Disk` : what is at a path;
* `Reading` : what a step read of a path, with the writes of the path that came before it;
* `Scanners` : what the text scanners make of a text; nothing here depends on what they do;
* `Walk` : a scan under way; `visit`, `stat`, `recallFacts`, `readPart`, `finish` are its steps, the files changing between
  them;
* `ProjectIndex.readings`, `Walk.readings` : all that an index, or a scan so far, was read from;
* `Act` : the steps of the calls of `sharedIndex` and of `invalidateSharedIndex`, each locked section one step, with
  the writes of files and the clock between them;
* `State` : the files, the memo of their facts, the cached indexes, and every call that is under way;
* `floor`s : of each path, how many of its writes were made before an invalidation that has returned, or that has
  cleared the memo or the cache.
-/

namespace Didi.Index

abbrev Path := String

inductive Node
  | absent
  | symlink
  | directory (entries : List Path)
  | file (modified size : Nat) (text : String)

abbrev Disk := Path → Node

/-- The text of a file that can be opened. -/
def Node.text : Node → Option String
  | .file _ _ text => some text
  | _ => none

/-- What was read of a path, and how many writes of the path came before. -/
structure Reading where
  path : Path
  version : Nat

/-! ### Names -/

def fileName (p : Path) : String := String.ofList (p.toList.reverse.takeWhile (· ≠ '/')).reverse

/-- The last dot of the name and what follows it, unless the name begins there. -/
def extension (p : Path) : String :=
  let name := (fileName p).toList.reverse
  let suffix := name.takeWhile (· ≠ '.')
  if suffix.length + 1 < name.length then String.ofList ('.' :: suffix.reverse) else ""

def foldAsciiLower (text : String) : String := text.map Char.toLower

def detectResourceType (ext : String) : String :=
  let lower := foldAsciiLower ext
  if lower ∈ [".tscn", ".scn"] then "PackedScene"
  else if lower ∈ [".tres", ".res"] then "Resource"
  else if lower = ".gd" then "GDScript"
  else if lower = ".cs" then "CSharpScript"
  else if lower ∈ [".png", ".jpg", ".jpeg", ".webp", ".svg"] then "Texture2D"
  else if lower ∈ [".glb", ".gltf", ".obj", ".blend"] then "MeshResource"
  else if lower ∈ [".wav", ".ogg", ".mp3"] then "AudioStream"
  else if lower = ".gdextension" then "GDExtension"
  else if lower ∈ [".gdshader", ".shader"] then "Shader"
  else if lower ∈ [".ttf", ".otf", ".woff"] then "Font"
  else "GenericResource"

/-- The directories that are not walked. -/
def skipsDirectory (p : Path) : Bool :=
  let name := fileName p
  name ∈ [".godot", ".git", "build", ".gemini", ".vs", "out", "bin", ".worktrees", ".didi"] ||
    "build-".toList.isPrefixOf name.toList

def resourcePath (root p : Path) : String := "res://" ++ String.ofList (p.toList.drop (root.length + 1))

def kMaxIndexedResources : Nat := 20000

/-! ### Facts -/

structure ImportMetadata where
  uid : String := ""
  type : String := ""

/-- The text scanners. -/
structure Scanners where
  -- the uid of the opening tag, among the first ten lines
  headerUid : String → Option String
  sidecarUid : String → String
  imported : String → ImportMetadata
  dependencies : String → List String
  declaredType : String → String

/-- What the index keeps of a file, and the readings that it is from. -/
structure FileFacts where
  uid : String := ""
  declaredType : String := ""
  importedType : String := ""
  dependencies : List String := []
  readings : List Reading := []

/-- The readings of a file that its facts take. -/
inductive Part
  | header
  | uidSidecar
  | dependencies
  | declaredType
  | importFile
  deriving DecidableEq

def Part.source (p : Path) : Part → Path
  | .uidSidecar => p ++ ".uid"
  | .importFile => p ++ ".import"
  | _ => p

def isSidecar (p : Path) : Bool := extension p = ".uid" || extension p = ".import"

def isTextKind (type : String) : Bool := type = "PackedScene" || type = "Resource" || type = "GDScript"

/-- The parts of a file, in the order in which they are read. -/
def partsOf (p : Path) : List Part :=
  let type := detectResourceType (extension p)
  if isTextKind type then
    [if foldAsciiLower (extension p) ∈ [".tscn", ".tres"] then .header else .uidSidecar] ++
      (if type = "PackedScene" ∨ type = "Resource" then [.dependencies] else []) ++
      (if type = "Resource" then [.declaredType] else [])
  else if isSidecar p then []
  else [.importFile, .uidSidecar]

structure Stamps where
  modified : Nat
  size : Nat
  uidModified : Nat
  importModified : Nat
  deriving DecidableEq

/-- The time of a sidecar, or zero for none. -/
def Node.modifiedOrNone : Node → Nat
  | .file modified _ _ => modified
  | _ => 0

/-- The stamps of a file and of the sidecars that its facts are read from. -/
def stampsOf (disk : Disk) (p : Path) : Option Stamps :=
  match disk p with
  | .file modified size _ => some {
      modified
      size
      uidModified := if isSidecar p then 0 else (disk (p ++ ".uid")).modifiedOrNone
      importModified := if isSidecar p || isTextKind (detectResourceType (extension p)) then 0
        else (disk (p ++ ".import")).modifiedOrNone }
  | _ => none

/-! ### The walk -/

structure ResourceInfo where
  path : String
  filename : String
  type : String
  extensionType : String
  uid : String
  declaredType : String
  fileSize : Nat
  dependencies : List String
  readings : List Reading

/-- How far the scan is with a file: its stamps are still to be read, the memo is still to be asked, or the parts
`todo` are still to be read. -/
inductive Stage
  | met
  | stated (stamps : Option Stamps)
  | reading (stamps : Option Stamps) (todo : List Part) (facts : FileFacts)

structure Looking where
  path : Path
  stage : Stage := .met
  -- what the stamps were read from
  stat : List Reading := []

def Stage.readings : Stage → List Reading
  | .reading _ _ facts => facts.readings
  | _ => []

def Looking.readings (looking : Looking) : List Reading := looking.stat ++ looking.stage.readings

structure Walk where
  root : Path
  pending : List Path
  looking : Option Looking := none
  resources : List ResourceInfo := []
  truncated : Bool := false
  -- the directories that were read
  listings : List Reading := []

/-- What a scan found. -/
structure ProjectIndex where
  resources : List ResourceInfo
  truncated : Bool
  listings : List Reading

/-- Everything that the index says was read here. -/
def ProjectIndex.readings (index : ProjectIndex) : List Reading :=
  index.listings ++ index.resources.flatMap ResourceInfo.readings

/-- What the index says of a file. -/
def resourceInfo (root p : Path) (stat : List Reading) (stamps : Option Stamps) (facts : FileFacts) : ResourceInfo :=
  let type := detectResourceType (extension p)
  let untyped := type = "MeshResource" ∨ type = "GenericResource"
  { path := resourcePath root p
    filename := fileName p
    type := if untyped ∧ facts.importedType ≠ "" then facts.importedType else type
    extensionType := type
    uid := facts.uid
    declaredType := facts.declaredType
    fileSize := stamps.elim 0 Stamps.size
    dependencies := facts.dependencies
    readings := stat ++ facts.readings }

/-- The facts, with what one more reading of `node` says. -/
def FileFacts.add (scanners : Scanners) (facts : FileFacts) (part : Part) (node : Node) (reading : Reading) :
    FileFacts :=
  let facts := { facts with readings := facts.readings ++ [reading] }
  match part, node.text with
  | .header, some text => { facts with uid := (scanners.headerUid text).getD "" }
  | .uidSidecar, some text =>
    let uid := scanners.sidecarUid text
    if uid = "" then facts else { facts with uid }
  | .dependencies, some text => { facts with dependencies := scanners.dependencies text }
  | .declaredType, some text => { facts with declaredType := scanners.declaredType text }
  | .importFile, some text => { facts with
      uid := (scanners.imported text).uid
      importedType := (scanners.imported text).type }
  | _, none => facts

namespace Walk

/-- The scan meets its next path. -/
def visit (disk : Disk) (written : Path → Nat) (w : Walk) : Walk :=
  match w.looking, w.pending with
  | none, p :: pending =>
    match disk p with
    | .directory entries =>
      if p ≠ w.root ∧ skipsDirectory p then { w with pending }
      else { w with pending := entries ++ pending, listings := w.listings ++ [⟨p, written p⟩] }
    | .file _ _ _ =>
      if kMaxIndexedResources ≤ w.resources.length then { w with truncated := true, pending := [] }
      else { w with pending, looking := some { path := p } }
    | _ => { w with pending }
  | _, _ => w

/-- The stamps of the file, and of its sidecars, are read. -/
def stat (disk : Disk) (written : Path → Nat) (w : Walk) : Walk :=
  match w.looking with
  | some { path, stage := .met, stat := _ } => { w with looking := some {
      path
      stage := .stated (stampsOf disk path)
      stat := [⟨path, written path⟩, ⟨path ++ ".uid", written (path ++ ".uid")⟩,
        ⟨path ++ ".import", written (path ++ ".import")⟩] } }
  | _ => w

/-- The file is in the index. -/
def push (w : Walk) (looking : Looking) (stamps : Option Stamps) (facts : FileFacts) : Walk :=
  { w with
    looking := none
    resources := w.resources ++ [resourceInfo w.root looking.path looking.stat stamps facts] }

/-- The memo has answered. -/
def recallFacts (w : Walk) (memo : Path → Stamps → Option FileFacts) : Walk :=
  match w.looking with
  | some looking =>
    match looking.stage with
    | .stated stamps =>
      match stamps.bind (memo looking.path) with
      | some facts => w.push looking stamps facts
      | none => { w with looking := some { looking with stage := .reading stamps (partsOf looking.path) {} } }
    | _ => w
  | none => w

/-- The next part of the file is read. A header without a uid leaves the uid to the sidecar. -/
def readPart (scanners : Scanners) (disk : Disk) (written : Path → Nat) (w : Walk) : Walk :=
  match w.looking with
  | some looking =>
    match looking.stage with
    | .reading stamps (part :: todo) facts =>
      let p := part.source looking.path
      let facts := facts.add scanners part (disk p) ⟨p, written p⟩
      let todo := if part = .header ∧ facts.uid = "" then .uidSidecar :: todo else todo
      { w with looking := some { looking with stage := .reading stamps todo facts } }
    | _ => w
  | none => w

/-- The file whose parts are all read, with its stamps and facts. -/
def readOut (w : Walk) : Option (Looking × Option Stamps × FileFacts) :=
  match w.looking with
  | some looking =>
    match looking.stage with
    | .reading stamps [] facts => some (looking, stamps, facts)
    | _ => none
  | none => none

/-- An exception ends the walk where it is. -/
def fail (w : Walk) : Walk := { w with pending := [], looking := none, truncated := true }

def isDone (w : Walk) : Bool := w.pending.isEmpty && w.looking.isNone

/-- The index, in path order. -/
def toIndex (w : Walk) : ProjectIndex where
  resources := w.resources.insertionSort fun a b => a.path ≤ b.path
  truncated := w.truncated
  listings := w.listings

/-- Everything that the index says so far was read here. -/
def indexed (w : Walk) : List Reading := w.listings ++ w.resources.flatMap ResourceInfo.readings

/-- Everything that the scan has read, or has of the memo. -/
def readings (w : Walk) : List Reading := w.indexed ++ w.looking.elim [] Looking.readings

end Walk

/-! ## The shared index -/

structure FileMemoEntry where
  stamps : Stamps
  facts : FileFacts

abbrev FileMemo := List (Path × FileMemoEntry)

def lookupFileFacts (memo : FileMemo) (p : Path) (stamps : Stamps) : Option FileFacts :=
  match memo.lookup p with
  | some entry => if entry.stamps = stamps then some entry.facts else none
  | none => none

/-- Past its ceiling the memo starts again. -/
def rememberFileFacts (memo : FileMemo) (p : Path) (stamps : Stamps) (facts : FileFacts) : FileMemo :=
  (if kMaxIndexedResources < memo.length then [] else memo).insertKey p ⟨stamps, facts⟩

structure SharedIndexEntry where
  index : ProjectIndex
  scannedAt : Nat

/-- In milliseconds. -/
def kSharedIndexLifetime : Nat := 2000

/-- A call of `sharedIndex`, with the floor that stood when it began. -/
inductive Call
  | idle
  | begun (floor : Path → Nat) (root : Path) (now : Nat)
  | scanning (floor : Path → Nat) (walk : Walk)
  | answered (floor : Path → Nat) (index : ProjectIndex)

/-- A call of `invalidateSharedIndex`, with the writes made before it. -/
inductive Invalidation
  | idle
  | begun (before : Path → Nat)
  | memoCleared (before : Path → Nat)

structure State where
  disk : Disk
  written : Path → Nat := 0
  clock : Nat := 0
  memo : FileMemo := []
  cache : List (Path × SharedIndexEntry) := []
  calls : Nat → Call := fun _ => .idle
  invalidations : Nat → Invalidation := fun _ => .idle
  memoFloor : Path → Nat := 0
  cacheFloor : Path → Nat := 0
  returnedFloor : Path → Nat := 0

inductive Act
  -- the files and the clock
  | write (p : Path) (node : Node)
  | elapse (ms : Nat)
  -- a call of sharedIndex: its start, the first locked section, the scan, the second locked section
  | call (c : Nat) (root : Path)
  | lookup (c : Nat)
  | visit (c : Nat)
  | stat (c : Nat)
  | recallFacts (c : Nat)
  | readPart (c : Nat)
  | remember (c : Nat)
  | failWalk (c : Nat)
  | store (c : Nat)
  -- a call of invalidateSharedIndex: its start and its two locked sections; it returns after the second
  | invalidate (i : Nat)
  | clearFileMemo (i : Nat)
  | clearCache (i : Nat)

namespace State

def setCall (s : State) (c : Nat) (call : Call) : State := { s with calls := Function.update s.calls c call }

def setInvalidation (s : State) (i : Nat) (invalidation : Invalidation) : State :=
  { s with invalidations := Function.update s.invalidations i invalidation }

/-- A step of the scan of a call, when it is scanning. -/
def walkStep (s : State) (c : Nat) (f : Walk → Walk) : State :=
  match s.calls c with
  | .scanning floor walk => s.setCall c (.scanning floor (f walk))
  | _ => s

/-- The locked section that begins a call. -/
def lookup (s : State) (c : Nat) : State :=
  match s.calls c with
  | .begun floor root now =>
    match s.cache.lookup root with
    | some entry =>
      if now - entry.scannedAt < kSharedIndexLifetime then s.setCall c (.answered floor entry.index)
      else s.setCall c (.scanning floor { root, pending := [root] })
    | none => s.setCall c (.scanning floor { root, pending := [root] })
  | _ => s

/-- The facts of a file are remembered, where it has stamps, and the file is in the index. -/
def remember (s : State) (c : Nat) : State :=
  match s.calls c with
  | .scanning floor walk =>
    match walk.readOut with
    | some (looking, stamps, facts) =>
      { s with memo := match stamps with
        | some stamps => rememberFileFacts s.memo looking.path stamps facts
        | none => s.memo }.setCall c (.scanning floor (walk.push looking stamps facts))
    | none => s
  | _ => s

/-- The locked section that ends a call. -/
def store (s : State) (c : Nat) : State :=
  match s.calls c with
  | .scanning floor walk =>
    if walk.isDone then
      { s with cache := s.cache.insertKey walk.root ⟨walk.toIndex, s.clock⟩ }.setCall c (.answered floor walk.toIndex)
    else s
  | _ => s

def clearFileMemo (s : State) (i : Nat) : State :=
  match s.invalidations i with
  | .begun before =>
    { s with memo := [], memoFloor := s.memoFloor ⊔ before }.setInvalidation i (.memoCleared before)
  | _ => s

def clearCache (s : State) (i : Nat) : State :=
  match s.invalidations i with
  | .memoCleared before =>
    { s with
      cache := []
      cacheFloor := s.cacheFloor ⊔ before
      returnedFloor := s.returnedFloor ⊔ before }.setInvalidation i .idle
  | _ => s

/-- A call may begin when it is not under way. -/
def isFree (s : State) (c : Nat) : Bool :=
  match s.calls c with
  | .idle => true
  | .answered _ _ => true
  | _ => false

def begin (s : State) (c : Nat) (root : Path) : State :=
  if s.isFree c then s.setCall c (.begun s.returnedFloor root s.clock) else s

def invalidate (s : State) (i : Nat) : State :=
  match s.invalidations i with
  | .idle => s.setInvalidation i (.begun s.written)
  | _ => s

def next (scanners : Scanners) (s : State) : Act → State
  | .write p node =>
    { s with disk := Function.update s.disk p node, written := Function.update s.written p (s.written p + 1) }
  | .elapse ms => { s with clock := s.clock + ms }
  | .call c root => s.begin c root
  | .lookup c => s.lookup c
  | .visit c => s.walkStep c (Walk.visit s.disk s.written)
  | .stat c => s.walkStep c (Walk.stat s.disk s.written)
  | .recallFacts c => s.walkStep c fun walk => walk.recallFacts (lookupFileFacts s.memo)
  | .readPart c => s.walkStep c (Walk.readPart scanners s.disk s.written)
  | .remember c => s.remember c
  | .failWalk c => s.walkStep c Walk.fail
  | .store c => s.store c
  | .invalidate i => s.invalidate i
  | .clearFileMemo i => s.clearFileMemo i
  | .clearCache i => s.clearCache i

end State

/-- A step, which answers nothing by itself. -/
def step (scanners : Scanners) (s : State) (act : Act) : Unit × State := ((), s.next scanners act)

end Didi.Index
