import Didi.Blackboard.Board
import Didi.Json.Pointer

/-!
# The tools on keys

`blackboardWrite`, `blackboardRead`, `blackboardPatch`, `blackboardListKeys` and `blackboardClear`.
Each takes its request and the reading of its clock, and sweeps the board it loads before anything
else. What a mutation would store is worked out by its plan (`planWrite`, `planPatch`, `planClear`)
from the swept board, before the dry run ends or the board is stored.
-/

namespace Didi.Blackboard
open Locked

def kBlackboardMaxPatchOperations : Nat := 100
def kBlackboardMaxTtlSeconds : Int := 30 * 24 * 60 * 60

/-! ## Write -/

structure BlackboardWriteRequest where
  board : String := "default"
  path : String
  value : Json
  author : Option String := none
  reason : Option String := none
  ttlSeconds : Option Int := none
  expectedUpdatedAtMs : Option Int := none
  dryRun : Bool := false

structure WriteAnswer where
  board : String
  path : String
  replaced : Bool
  previousValue : Option Json
  dryRun : Bool
  metadata : Option Meta
  bounds : Bounds
  revision : Int
  /-- What the stored board holds at the path; a dry run does not answer it. -/
  value : Option Json

/-- Put a value at a path, with the containers it needs on the way; answers what was there. Fails
with the segments walked when a value is in the way. -/
def writeAt (value : Json) : JsonObject → List String → Except (List String) (Option Json × JsonObject)
  | members, [] => .ok (none, members)
  | members, [last] => .ok (members.lookup last, members.insertKey last value)
  | members, k :: ks =>
    match members.lookup k with
    | none => step members k (writeAt value [] ks)
    | some (.object children) => step members k (writeAt value children ks)
    | some _ => .error [k]
where
  step (members : JsonObject) (k : String) :
      Except (List String) (Option Json × JsonObject) → Except (List String) (Option Json × JsonObject)
    | .ok (previous, children) => .ok (previous, members.insertKey k (.object children))
    | .error walked => .error (k :: walked)

/-- The `updated_at_ms` of a path; 0 when it has no metadata. -/
def heldUpdatedAtMs (board : Board) (path : String) : Int :=
  match board.meta.get path with
  | none => 0
  | some entry => entry.updatedAtMs

def staleWrite (board : Board) (path : String) (expected : Int) : Error :=
  let held := heldUpdatedAtMs board path
  { code := 409
    message := "expected_updated_at_ms " ++ toString expected ++
      (if held = 0 then " but '" ++ path ++ "' does not exist; nothing was written"
        else " but '" ++ path ++ "' was last written at " ++ toString held ++ "; nothing was written")
    data := .object ([("current_updated_at_ms", .integer held),
        ("expected_updated_at_ms", .integer expected)] ++
      optionalMember "last_written_by" (((board.meta.get path).bind Meta.author).map .string) ++
      [("path", .string path), ("reason_code", .string "stale_write")]) }

/-- The refusal of a write that meets a value on its way down. -/
def valueInTheWay (path : String) (walked : List String) : Error :=
  .invalidArgument
    ("path '" ++ path ++ "' runs through the value at '" ++ joinPath walked ++ "'; clear it first")

/-- Whether a path is as a pinned write expects it. -/
def pinHolds (request : BlackboardWriteRequest) (board : Board) (path : String) : Bool :=
  request.expectedUpdatedAtMs.all fun expected => heldUpdatedAtMs board path = expected

structure WritePlan where
  previous : Option Json
  entry : Meta
  board : Board

/-- What a write would answer and store, on a swept board. -/
def planWrite (request : BlackboardWriteRequest) (parts : List String) (nowMs : Int) (board : Board) :
    Except Error WritePlan := do
  let path := joinPath parts
  let written ← (writeAt request.value board.state parts).mapError (valueInTheWay path)
  Except.require (pinHolds request board path = true)
    (staleWrite board path (request.expectedUpdatedAtMs.getD 0))
  checkBoardBounds (.object written.2)
  let entry : Meta :=
    { updatedAtMs := nowMs
      author := request.author
      reason := request.reason
      expiresAtMs := request.ttlSeconds.map fun ttl => nowMs + ttl * 1000 }
  return {
    previous := written.1
    entry := entry
    board := { board with
      revision := board.revision + 1
      state := written.2
      «meta» := board.meta.insert path entry
      expired := board.expired.erase path } }

def blackboardWrite (request : BlackboardWriteRequest) (nowMs : Int) : BoardM WriteAnswer := do
  let parts ← liftResult (blackboardSplitPath request.path)
  require (request.value.dumpSize ≤ kBlackboardMaxValueBytes) (.error (.invalidArgument
    ("value is larger than the " ++ toString kBlackboardMaxValueBytes ++
      " byte limit for a single write")))
  require (request.ttlSeconds.all (fun ttl => 0 < ttl && ttl ≤ kBlackboardMaxTtlSeconds) = true)
    (.error (.invalidArgument
      ("ttl_seconds must be between 1 and " ++ toString kBlackboardMaxTtlSeconds)))
  withBoardLock request.board do
    let loaded ← loadBoard
    let (_, board) ← liftThrows (sweepExpired loaded nowMs)
    let plan ← liftResult (planWrite request parts nowMs board)
    let answer : WriteAnswer :=
      { board := request.board
        path := joinPath parts
        replaced := plan.previous.isSome
        previousValue := plan.previous
        dryRun := request.dryRun
        metadata := some plan.entry
        bounds := boundsPayload
        revision := board.revision
        value := none }
    if request.dryRun then return answer
    let stored ← saveAndReadBack plan.board
    let pointer ← liftThrows (pointerFor parts)
    let there ← liftThrows ((Json.object stored.state).contains pointer)
    let value ← liftThrows (if there then (Json.object stored.state).atPointer pointer else .ok .null)
    return { answer with
      revision := stored.revision
      metadata := stored.meta.get (joinPath parts)
      value := some value }

/-! ## Read -/

structure BlackboardReadRequest where
  board : String := "default"
  /-- The empty path reads the whole board. -/
  path : String
  deep : Bool := true
  includeMetadata : Bool := false

inductive ReadContent
  | found (value : Json) (metadata : Option (OrderedMap String Meta))
  | expired (record : Tombstone)
  | cleared (record : Tombstone)
  | noRecord (lastBoardClear : Option ClearEvent)

structure ReadAnswer where
  board : String
  path : String
  deep : Bool
  truncated : Bool
  revision : Int
  /-- The stamp of the path; a read of the whole board has none. -/
  updatedAtMs : Option Int
  content : ReadContent

/-- One level of an object, each container in it replaced by a marker. -/
def shallowView : Json → Json
  | .object members => .object (members.map fun e =>
      (e.1, match e.2 with
        | .object children =>
          .object [("_keys", .integer children.length), ("_truncated", .string "object")]
        | .array elements =>
          .object [("_items", .integer elements.length), ("_truncated", .string "array")]
        | child => child))
  | v => v

def holdsContainer : Json → Bool
  | .object members => members.any fun e => e.2.isStructured
  | _ => false

/-- Split a path that may be empty. -/
def splitOptionalPath (path : String) : Except Error (List String) :=
  if path = "" then .ok [] else blackboardSplitPath path

/-- Whether an entry is at a path or below it; every entry is below the empty one. -/
def atOrUnder (path entry : String) : Bool := path = "" || entry = path || underPath path entry

/-- Sweep, and store the board when that dropped something. -/
def sweepAndSave (loaded : Board) (nowMs : Int) : BoardM Board := do
  let (changed, board) ← liftThrows (sweepExpired loaded nowMs)
  if changed then saveBoard board
  return board

/-- Which kind of nothing is at a path. -/
def missingContent (board : Board) (path : String) : ReadContent :=
  match board.expired.get path with
  | some record => .expired record
  | none =>
    match board.cleared.get path with
    | some record => .cleared record
    | none => .noRecord (board.audit.getLast?.filter fun last => last.path = "")

def foundContent (request : BlackboardReadRequest) (board : Board) (path : String) (value : Json) :
    ReadContent :=
  .found (if request.deep then value else shallowView value)
    (if request.includeMetadata then some (board.meta.filter fun entry _ => atOrUnder path entry)
      else none)

/-- What a read answers about a swept board. -/
def readSwept (request : BlackboardReadRequest) (parts : List String) (board : Board) :
    Except JsonException ReadAnswer := do
  let path := joinPath parts
  let answer (truncated : Bool) (content : ReadContent) : ReadAnswer :=
    { board := request.board
      path := path
      deep := request.deep
      truncated := truncated
      revision := board.revision
      updatedAtMs := if parts = [] then none else some (heldUpdatedAtMs board path)
      content := content }
  let pointer ← pointerFor parts
  let there ← (Json.object board.state).contains pointer
  if !there then return answer false (missingContent board path)
  let value ← (Json.object board.state).atPointer pointer
  return answer (!request.deep && holdsContainer value) (foundContent request board path value)

def blackboardRead (request : BlackboardReadRequest) (nowMs : Int) : BoardM ReadAnswer := do
  let parts ← liftResult (splitOptionalPath request.path)
  withBoardLock request.board do
    let loaded ← loadBoard
    let board ← sweepAndSave loaded nowMs
    liftThrows (readSwept request parts board)

/-! ## Patch -/

structure BlackboardPatchRequest where
  board : String := "default"
  expectedRevision : Option Int := none
  operations : Json := .array []
  author : Option String := none
  reason : Option String := none
  dryRun : Bool := false

structure PatchAnswer where
  board : String
  operationsApplied : Nat
  dryRun : Bool
  bounds : Bounds
  author : Option String
  reason : Option String
  /-- The patched tree, which only a dry run answers. -/
  resultingValue : Option Json
  revision : Int

def knownOperations : List String := ["add", "remove", "replace", "move", "copy", "test"]

def pointerProblem (entry name field : String) (operation : JsonObject) : Option String :=
  match operation.lookup field with
  | none => some (entry ++ " names '" ++ name ++ "' and has no '" ++ field ++ "'.")
  | some (.string text) =>
    if text ≠ "" ∧ text.toList.head? ≠ some '/' then
      some (entry ++ "'s '" ++ field ++ "' is '" ++ text ++
        "', which is not a JSON pointer. A pointer is empty or begins with '/', so a " ++
        "board path like 'doc.items' is written '/doc/items'.")
    else none
  | some value =>
    some (entry ++ "'s '" ++ field ++ "' is " ++ value.typeName ++ ", not a JSON pointer string.")

/-- What keeps an entry of a patch from being an operation. -/
def patchOperationProblem (operation : Json) (index : Nat) : Option String :=
  let entry := "Argument 'operations' entry " ++ toString index
  match operation with
  | .object members =>
    match members.lookup "op" with
    | none => some (entry ++ " has no 'op'. Every operation names one of add, remove, replace, move, " ++
        "copy or test.")
    | some (.string name) =>
      if name ∉ knownOperations then
        some (entry ++ " names the operation '" ++ name ++
          "', which is not one of add, remove, replace, move, copy or test.")
      else
        (pointerProblem entry name "path" members).or <|
        (if name = "move" ∨ name = "copy" then pointerProblem entry name "from" members
          else none).or <|
        if (name = "add" ∨ name = "replace" ∨ name = "test") ∧ members.lookup "value" = none then
          some (entry ++ " names '" ++ name ++ "' and has no 'value'.")
        else none
    | some op => some (entry ++ " has an 'op' that is " ++ op.typeName ++
        ", not one of the strings add, remove, replace, move, copy or test.")
  | _ => some (entry ++ " must be an object, not " ++ operation.typeName ++ ".")

def stringOr (operation : JsonObject) (member : String) : String :=
  match operation.lookup member with
  | some (.string s) => s
  | _ => "?"

/-- What the board holds where a `test` failed, for the refusal. -/
def heldAt (state : Json) (path : String) : String :=
  match (do
    let pointer ← JsonPointer.parse path
    if ← state.contains pointer then return (← state.atPointer pointer).dump
    return "nothing" : Except JsonException String) with
  | .ok held => held
  | .error _ => "nothing"

/-- Why a well-formed operation did not apply. -/
def describePatchFailure (operation : JsonObject) (index : Nat) (state : Json)
    (failure : JsonException) : String :=
  let entry := "operations entry " ++ toString index
  let name := stringOr operation "op"
  let path := stringOr operation "path"
  if failure.id = 403 then
    entry ++ " is a '" ++ name ++ "' on '" ++ path ++
      "', and the board has nothing at that location. The patch was rolled back and the " ++
      "board is unchanged."
  else if failure.id = 501 then
    entry ++ " tests '" ++ path ++ "' against " ++ ((operation.lookup "value").getD .null).dump ++
      " and the board holds " ++ heldAt state path ++
      ". The patch was rolled back and the board is unchanged."
  else
    entry ++ " ('" ++ name ++ "' on '" ++ path ++ "') could not be applied: " ++ failure.what ++
      ". The patch was rolled back and the board is unchanged."

/-- Apply the operations one by one, from the entry number `index` on. -/
def applyOperations (patched : Json) (index : Nat) : List Json → Except Error Json
  | [] => .ok patched
  | operation :: operations =>
    match patchOperationProblem operation index with
    | some problem =>
      .error (.invalidArgument
        (problem ++ " The patch was rolled back and the board is unchanged."))
    | none =>
      match patched.patchOne operation with
      | .ok next => applyOperations next (index + 1) operations
      | .error failure =>
        .error (.invalidArgument
          (describePatchFailure operation.members index patched failure))

/-- Whether a path of the metadata resolves in a tree. -/
def describes (tree : Json) (path : String) : Except JsonException Bool :=
  match blackboardSplitPath path with
  | .error _ => .ok false
  | .ok segments => do tree.contains (← pointerFor segments)

def stalePatch (board : Board) (expected : Int) : Error where
  code := 409
  message := "expected_revision " ++ toString expected ++ " but the board is at revision " ++
    toString board.revision ++ "; nothing was applied"
  data := .object [("current_revision", .integer board.revision),
    ("expected_revision", .integer expected), ("reason_code", .string "stale_patch")]

/-- The board a patch would store, on a swept board. -/
def planPatch (request : BlackboardPatchRequest) (operations : List Json) (board : Board) :
    Except Failure Board := do
  Except.require (request.expectedRevision.all (fun expected => expected = board.revision) = true)
    (.error (stalePatch board (request.expectedRevision.getD 0)))
  let patched ← (applyOperations (.object board.state) 0 operations).mapError .error
  Except.require (patched.isObject = true)
    (.error (.invalidArgument "patch would replace the board root with a non-object"))
  (checkBoardBounds patched).mapError .error
  let described ← (board.meta.filterM fun path _ => describes patched path).mapError .exception
  return { board with
    revision := board.revision + 1
    state := patched.members
    «meta» := described }

def elementsOf : Json → Option (List Json)
  | .array elements => some elements
  | _ => none

def blackboardPatch (request : BlackboardPatchRequest) (nowMs : Int) : BoardM PatchAnswer := do
  let operations ← liftResult (match elementsOf request.operations with
    | some operations => .ok operations
    | none => .error (.invalidArgument "operations must be an RFC 6902 array"))
  require (operations ≠ []) (.error (.invalidArgument "operations must hold at least one operation"))
  require (operations.length ≤ kBlackboardMaxPatchOperations) (.error (.invalidArgument
    ("operations must hold at most " ++ toString kBlackboardMaxPatchOperations ++ " operations")))
  withBoardLock request.board do
    let loaded ← loadBoard
    let (_, board) ← liftThrows (sweepExpired loaded nowMs)
    let plan ← ofExcept (planPatch request operations board)
    let answer : PatchAnswer :=
      { board := request.board
        operationsApplied := operations.length
        dryRun := request.dryRun
        bounds := boundsPayload
        author := request.author
        reason := request.reason
        resultingValue := if request.dryRun then some (.object plan.state) else none
        revision := board.revision }
    if request.dryRun then return answer
    let stored ← saveAndReadBack plan
    return { answer with revision := stored.revision }

/-! ## List -/

structure BlackboardListKeysRequest where
  board : String := "default"
  /-- A path whose keys are listed; the empty one lists everything. -/
  within : String := ""
  maxKeys : Nat := 500
  includeMetadata : Bool := false

inductive KeyKind
  | container
  | array
  | value
  deriving DecidableEq

structure KeyItem where
  path : String
  kind : KeyKind
  metadata : Option Meta

structure KeysAnswer where
  board : String
  within : String
  keys : List KeyItem
  returned : Nat
  total : Nat
  truncated : Bool

def keyKind : Json → KeyKind
  | .object _ => .container
  | .array _ => .array
  | _ => .value

mutual

/-- Every path below a value, containers included. -/
def collectPaths (above : String) : Json → List (String × KeyKind)
  | .object members => collectMembers above members
  | _ => []

def collectMembers (above : String) : List (String × Json) → List (String × KeyKind)
  | [] => []
  | (k, child) :: members =>
    let path := if above = "" then k else above ++ "." ++ k
    (path, keyKind child) :: collectPaths path child ++ collectMembers above members

end

/-- What a listing answers about a swept board. -/
def listSwept (request : BlackboardListKeysRequest) (within : String) (board : Board) : KeysAnswer :=
  let all := collectPaths "" (.object board.state)
  let matched := all.filter fun record => atOrUnder within record.1
  let keys := (matched.take request.maxKeys).map fun record =>
    { path := record.1
      kind := record.2
      metadata := if request.includeMetadata then board.meta.get record.1 else none : KeyItem }
  { board := request.board
    within := within
    keys := keys
    returned := keys.length
    total := matched.length
    truncated := keys.length < matched.length }

def blackboardListKeys (request : BlackboardListKeysRequest) (nowMs : Int) : BoardM KeysAnswer := do
  require (1 ≤ request.maxKeys ∧ request.maxKeys ≤ kBlackboardMaxKeys) (.error (.invalidArgument
    ("max_keys must be between 1 and " ++ toString kBlackboardMaxKeys)))
  let parts ← liftResult (splitOptionalPath request.within)
  withBoardLock request.board do
    let loaded ← loadBoard
    let board ← sweepAndSave loaded nowMs
    return listSwept request (joinPath parts) board

/-! ## Clear -/

structure BlackboardClearRequest where
  board : String := "default"
  /-- The empty path clears the whole board. -/
  path : String
  author : Option String := none
  reason : Option String := none
  dryRun : Bool := false

structure ClearAnswer where
  board : String
  path : String
  found : Bool
  removedKeys : Nat
  dryRun : Bool
  /-- The audit line and the revision, answered when something was there to clear. -/
  audit : Option ClearEvent
  revision : Option Int

def eraseAll {α : Type} (m : OrderedMap String α) (keys : List String) : OrderedMap String α :=
  keys.foldl (fun m k => m.erase k) m

/-- Remove a path with the metadata at and below it, and leave tombstones. -/
def clearPath (request : BlackboardClearRequest) (parts : List String) (nowMs : Int) (board : Board) :
    Except JsonException Board := do
  let path := joinPath parts
  let tree ← (Json.object board.state).alterAt (Json.erase (parts.getLastD "")) parts.dropLast
  let dead := (board.meta.filter fun entry _ => entry = path || underPath path entry).keys
  let record : Tombstone := { atMs := nowMs, author := request.author, reason := request.reason }
  let cleared := (dead.foldl (fun m k => m.insert k record) board.cleared).insert path record
  return { board with
    state := tree.members
    «meta» := eraseAll board.meta dead
    cleared := trimTombstones cleared kBlackboardMaxClearedRecords
    expired := (eraseAll board.expired dead).erase path }

/-- The audit line of a clear. -/
def clearEvent (request : BlackboardClearRequest) (parts : List String) (nowMs : Int) (removedKeys : Nat) :
    ClearEvent where
  atMs := nowMs
  path := joinPath parts
  author := request.author
  reason := request.reason
  removedKeys := removedKeys

/-- The board with an audit line and the next revision. -/
def recordClear (event : ClearEvent) (left : Board) : Board :=
  { left with
    audit := (left.audit ++ [event]).drop ((left.audit ++ [event]).length - kBlackboardMaxAuditRecords)
    revision := left.revision + 1 }

/-- The audit line of a clear and the board it would store, on a swept board; `none` when nothing is
at the path. A dry run only counts what is there. -/
def planClear (request : BlackboardClearRequest) (parts : List String) (nowMs : Int) (board : Board) :
    Except JsonException (Option (ClearEvent × Board)) :=
  if parts = [] then
    let event := clearEvent request parts nowMs (countMembers board.state)
    .ok (some (event, recordClear event { board with state := [], «meta» := ∅, cleared := ∅ }))
  else do
    let pointer ← pointerFor parts
    let there ← (Json.object board.state).contains pointer
    if !there then return none
    let removed ← (Json.object board.state).atPointer pointer
    let left ← if request.dryRun then .ok board else clearPath request parts nowMs board
    let event := clearEvent request parts nowMs (1 + countKeys removed)
    return some (event, recordClear event left)

def blackboardClear (request : BlackboardClearRequest) (nowMs : Int) : BoardM ClearAnswer := do
  let parts ← liftResult (splitOptionalPath request.path)
  withBoardLock request.board do
    let loaded ← loadBoard
    let (_, board) ← liftThrows (sweepExpired loaded nowMs)
    match ← liftThrows (planClear request parts nowMs board) with
    | none =>
      return {
        board := request.board
        path := joinPath parts
        found := false
        removedKeys := 0
        dryRun := request.dryRun
        audit := none
        revision := none }
    | some (event, left) =>
      let answer : ClearAnswer :=
        { board := request.board
          path := joinPath parts
          found := true
          removedKeys := event.removedKeys
          dryRun := request.dryRun
          audit := some event
          revision := some board.revision }
      if request.dryRun then return answer
      let stored ← saveAndReadBack left
      let stillThere ← liftThrows (if parts = [] then .ok (!stored.state.isEmpty)
        else do (Json.object stored.state).contains (← pointerFor parts))
      require (stillThere = false) (.error (.internal
        ("the blackboard was saved and still holds '" ++ joinPath parts ++
          "', which this clear removed")))
      return { answer with revision := some stored.revision }

end Didi.Blackboard
