import Didi.Blackboard.Path
import Didi.Lib.Locked

/-!
# The board and its file

* `Board` : the tree of keys, the metadata of the written paths, the tasks, the tombstones of what
  lapsed or was cleared, the audit lines and the revision;
* `loadBoard`, `saveBoard`, `saveAndReadBack` : a board in its file, within the byte limit;
* `sweepExpired` : drops the entries whose ttl has lapsed, path by path in key order;
* `refreshTasks` : lapses dead leases and readies the blocked tasks whose dependencies are complete.

A file holds the board itself rather than its text. Its size is that of the text `dump()` writes.
-/

namespace Didi.Blackboard
open Locked

def kBlackboardMaxBoardNameBytes : Nat := 64
def kBlackboardMaxValueBytes : Nat := 256 * 1024
def kBlackboardMaxBoardBytes : Nat := 4 * 1024 * 1024
def kBlackboardMaxKeys : Nat := 10000
def kBlackboardMaxDepth : Nat := 32
def kBlackboardMaxExpiredRecords : Nat := 256
def kBlackboardMaxClearedRecords : Nat := 256
def kBlackboardMaxAuditRecords : Nat := 64
def kBoardFormatVersion : Int := 1

/-! ## Data -/

/-- What the board keeps about a written path. -/
structure Meta where
  updatedAtMs : Int
  author : Option String
  reason : Option String
  expiresAtMs : Option Int
  deriving DecidableEq

/-- What is left of an entry that lapsed or was cleared. -/
structure Tombstone where
  atMs : Int
  author : Option String
  reason : Option String
  deriving DecidableEq

/-- An audit line; its action is always a clear. -/
structure ClearEvent where
  atMs : Int
  path : String
  author : Option String
  reason : Option String
  removedKeys : Nat
  deriving DecidableEq

inductive TaskStatus
  | blocked
  | pending
  | inProgress
  | needsReview
  | completed
  | failed
  deriving DecidableEq

def TaskStatus.text : TaskStatus → String
  | .blocked => "blocked"
  | .pending => "pending"
  | .inProgress => "in_progress"
  | .needsReview => "needs_review"
  | .completed => "completed"
  | .failed => "failed"

structure Lease where
  owner : String
  grantedAtMs : Option Int
  expiresAtMs : Int
  leaseSeconds : Int
  deriving DecidableEq

structure Note where
  atMs : Int
  agent : String
  note : String
  deriving DecidableEq

structure Task where
  taskId : String
  title : String
  description : Option String
  author : Option String
  assignedTo : Option String
  dependencies : List String
  tags : List String
  priority : Int
  status : TaskStatus
  progress : Int
  notes : List Note
  artifacts : Json
  createdAtMs : Int
  updatedAtMs : Int
  completedAtMs : Option Int
  lease : Option Lease

structure Board where
  state : JsonObject := []
  «meta» : OrderedMap String Meta := ∅
  tasks : OrderedMap String Task := ∅
  expired : OrderedMap String Tombstone := ∅
  cleared : OrderedMap String Tombstone := ∅
  audit : List ClearEvent := []
  revision : Int := 0

/-- One board's file; `none` while nothing was ever stored. -/
abbrev File := Option Board

/-! ## The stored text -/

def optionalMember (member : String) (v : Option Json) : JsonObject :=
  match v with
  | none => []
  | some v => [(member, v)]

def nullable (v : Option String) : Json :=
  match v with
  | none => .null
  | some s => .string s

def Meta.toJson (entry : Meta) : Json :=
  .object (optionalMember "author" (entry.author.map .string) ++
    optionalMember "expires_at_ms" (entry.expiresAtMs.map .integer) ++
    optionalMember "reason" (entry.reason.map .string) ++
    [("updated_at_ms", .integer entry.updatedAtMs)])

def Tombstone.toJson (atField : String) (record : Tombstone) : Json :=
  .object (optionalMember "author" (record.author.map .string) ++
    [(atField, .integer record.atMs)] ++
    optionalMember "reason" (record.reason.map .string))

def ClearEvent.toJson (event : ClearEvent) : Json :=
  .object ([("action", .string "clear"), ("at_ms", .integer event.atMs)] ++
    optionalMember "author" (event.author.map .string) ++
    [("path", .string event.path)] ++
    optionalMember "reason" (event.reason.map .string) ++
    [("removed_keys", .integer event.removedKeys)])

def Lease.toJson (lease : Lease) : Json :=
  .object ([("expires_at_ms", .integer lease.expiresAtMs)] ++
    optionalMember "granted_at_ms" (lease.grantedAtMs.map .integer) ++
    [("lease_seconds", .integer lease.leaseSeconds), ("owner", .string lease.owner)])

def Note.toJson (note : Note) : Json :=
  .object [("agent", .string note.agent), ("at_ms", .integer note.atMs), ("note", .string note.note)]

def Task.toJson (task : Task) : Json :=
  .object ([("artifacts", task.artifacts), ("assigned_to", nullable task.assignedTo),
      ("author", nullable task.author)] ++
    optionalMember "completed_at_ms" (task.completedAtMs.map .integer) ++
    [("created_at_ms", .integer task.createdAtMs),
      ("dependencies", .array (task.dependencies.map .string)),
      ("description", nullable task.description)] ++
    optionalMember "lease" (task.lease.map Lease.toJson) ++
    [("notes", .array (task.notes.map Note.toJson)), ("priority", .integer task.priority),
      ("progress", .integer task.progress), ("status", .string task.status.text),
      ("tags", .array (task.tags.map .string)), ("task_id", .string task.taskId),
      ("title", .string task.title), ("updated_at_ms", .integer task.updatedAtMs)])

def mapObject {α : Type} (m : OrderedMap String α) (toJson : α → Json) : Json :=
  .object (m.entries.map fun e => (e.1, toJson e.2))

/-- The document `saveBoard` writes. -/
def Board.document (board : Board) : Json :=
  .object [("audit", .array (board.audit.map ClearEvent.toJson)),
    ("cleared", mapObject board.cleared (Tombstone.toJson "cleared_at_ms")),
    ("expired", mapObject board.expired (Tombstone.toJson "expired_at_ms")),
    ("meta", mapObject board.meta Meta.toJson),
    ("revision", .integer board.revision),
    ("state", .object board.state),
    ("tasks", mapObject board.tasks Task.toJson),
    ("version", .integer kBoardFormatVersion)]

def Board.byteSize (board : Board) : Nat := board.document.dumpSize

/-! ## Calls under the lock -/

/-- How a call fails: with an error of its own, or with an exception of the JSON library. -/
inductive Failure
  | error (e : Error)
  | exception (e : JsonException)

abbrev BoardM := Locked File Failure

def liftResult {α : Type} (r : Except Error α) : BoardM α := ofExcept (r.mapError .error)

def liftThrows {α : Type} (r : Except JsonException α) : BoardM α := ofExcept (r.mapError .exception)

def isLegalBoardName (board : String) : Bool :=
  board ≠ "" && board.utf8ByteSize ≤ kBlackboardMaxBoardNameBytes &&
    board.toList.all fun c => c.isAlphanum || c = '_' || c = '-'

def withBoardLock {α : Type} (board : String) (operation : BoardM α) : BoardM α := do
  require (isLegalBoardName board = true) (.error (.invalidArgument
    ("board name must be 1 to " ++ toString kBlackboardMaxBoardNameBytes ++
      " characters of letters, digits, underscore or hyphen")))
  operation

def loadBoard : BoardM Board := do
  match ← fetch with
  | none => return {}
  | some board =>
    require (board.byteSize ≤ kBlackboardMaxBoardBytes) (.error (.invalidArgument
      ("blackboard file is larger than the " ++ toString kBlackboardMaxBoardBytes ++
        " byte limit and was not read")))
    return board

def saveBoard (board : Board) : BoardM Unit := do
  require (board.byteSize ≤ kBlackboardMaxBoardBytes) (.error (.invalidArgument
    ("the write would take the board past the " ++ toString kBlackboardMaxBoardBytes ++
      " byte limit; nothing was written")))
  store (some board)

def saveAndReadBack (board : Board) : BoardM Board := do
  saveBoard board
  let stored ← loadBoard
  require (stored.revision = board.revision) (.error (.internal
    ("the blackboard was saved and reads back at revision " ++ toString stored.revision ++ ", not " ++
      toString board.revision)))
  return stored

structure Bounds where
  maxValueBytes : Nat
  maxBoardBytes : Nat
  maxKeys : Nat
  maxDepth : Nat
  maxPathSegments : Nat
  deriving DecidableEq

def boundsPayload : Bounds where
  maxValueBytes := kBlackboardMaxValueBytes
  maxBoardBytes := kBlackboardMaxBoardBytes
  maxKeys := kBlackboardMaxKeys
  maxDepth := kBlackboardMaxDepth
  maxPathSegments := kBlackboardMaxPathSegments

mutual

def documentDepth (depth : Nat) : Json → Nat
  | .object members => deepestMember depth (depth + 1) members
  | .array elements => deepestElement depth (depth + 1) elements
  | _ => depth

def deepestMember (deepest depth : Nat) : List (String × Json) → Nat
  | [] => deepest
  | (_, child) :: members => deepestMember (max deepest (documentDepth depth child)) depth members

def deepestElement (deepest depth : Nat) : List Json → Nat
  | [] => deepest
  | child :: elements => deepestElement (max deepest (documentDepth depth child)) depth elements

end

mutual

def countKeys : Json → Nat
  | .object members => countMembers members
  | _ => 0

def countMembers : List (String × Json) → Nat
  | [] => 0
  | (_, child) :: members => 1 + countKeys child + countMembers members

end

def checkBoardBounds (state : Json) : Except Error Unit :=
  if kBlackboardMaxKeys < countKeys state then
    .error (.invalidArgument
      ("the write would take the board past " ++ toString kBlackboardMaxKeys ++
        " keys; nothing was written"))
  else if kBlackboardMaxDepth < documentDepth 1 state then
    .error (.invalidArgument
      ("the write would nest deeper than " ++ toString kBlackboardMaxDepth ++
        " levels; nothing was written"))
  else .ok ()

/-! ## Expiry -/

/-- The order of the pairs of an age and a key. -/
def olderOrSame (a b : Int × String) : Prop := a.1 < b.1 ∨ (a.1 = b.1 ∧ a.2 ≤ b.2)

instance : DecidableRel olderOrSame := fun _ _ => inferInstanceAs (Decidable (_ ∨ _))

/-- Keeps the most recent `limit` records. -/
def trimTombstones (records : OrderedMap String Tombstone) (limit : Nat) :
    OrderedMap String Tombstone :=
  if records.size ≤ limit then records
  else
    let byAge := (records.entries.map fun e => (e.2.atMs, e.1)).insertionSort olderOrSame
    (byAge.take (records.size - limit)).foldl (fun kept e => kept.erase e.2) records

def Meta.lapsed (nowMs : Int) (entry : Meta) : Bool :=
  match entry.expiresAtMs with
  | none => false
  | some expires => expires ≤ nowMs

/-- Erase the member that a path of the metadata names. -/
def dropFromTree (state : JsonObject) (path : String) : Except JsonException JsonObject :=
  match blackboardSplitPath path with
  | .error _ => .ok state
  | .ok segments => do
    let pointer ← pointerFor segments
    let tree ← (Json.object state).eraseMember pointer
    return tree.members

/-- The tombstone of a lapsed entry. -/
def expiredRecord (nowMs : Int) (entry : Meta) : Tombstone where
  atMs := entry.expiresAtMs.getD nowMs
  author := entry.author
  reason := entry.reason

/-- What the sweep does for one lapsed entry. -/
def dropExpired (nowMs : Int) (board : Board) (lapsed : String × Meta) : Except JsonException Board := do
  let state ← dropFromTree board.state lapsed.1
  return { board with
    expired := board.expired.insert lapsed.1 (expiredRecord nowMs lapsed.2)
    state := state
    «meta» := board.meta.erase lapsed.1 }

/-- Whether an entry had lapsed, and the board without the lapsed entries. -/
def sweepExpired (board : Board) (nowMs : Int) : Except JsonException (Bool × Board) := do
  let lapsed := (board.meta.filter fun _ entry => entry.lapsed nowMs).entries
  if lapsed.isEmpty then return (false, board)
  let swept ← lapsed.foldlM (dropExpired nowMs) board
  return (true, { swept with expired := trimTombstones swept.expired kBlackboardMaxExpiredRecords })

/-! ## Leases and readiness -/

def hasLiveLease (task : Task) (nowMs : Int) : Bool :=
  match task.lease with
  | none => false
  | some lease => nowMs < lease.expiresAtMs

def leaseOwner (task : Task) : String :=
  match task.lease with
  | none => ""
  | some lease => lease.owner

/-- Whether nobody is on a task that is in progress. -/
def leaseLapsed (nowMs : Int) (task : Task) : Bool :=
  task.status = .inProgress && !hasLiveLease task nowMs

def lapseLease (nowMs : Int) (task : Task) : Task :=
  if leaseLapsed nowMs task then { task with status := .pending, lease := none, assignedTo := none }
  else task

def isCompleted (tasks : OrderedMap String Task) (taskId : String) : Bool :=
  match tasks.get taskId with
  | none => false
  | some task => task.status = .completed

/-- Whether a blocked task waits for nothing more. -/
def unblocked (tasks : OrderedMap String Task) (task : Task) : Bool :=
  task.status = .blocked && task.dependencies.all (isCompleted tasks)

def unblock (tasks : OrderedMap String Task) (task : Task) : Task :=
  if unblocked tasks task then { task with status := .pending } else task

/-- The tasks after the two passes. The second only turns blocked tasks pending, so what it reads of
the other tasks is what the first left. -/
def refreshedTasks (tasks : OrderedMap String Task) (nowMs : Int) : OrderedMap String Task :=
  let lapsed := tasks.mapVal fun _ task => lapseLease nowMs task
  lapsed.mapVal fun _ task => unblock lapsed task

/-- Whether a task changed, and the board with its tasks refreshed. -/
def refreshTasks (board : Board) (nowMs : Int) : Bool × Board :=
  let lapsed := board.tasks.mapVal fun _ task => lapseLease nowMs task
  (board.tasks.entries.any (fun e => leaseLapsed nowMs e.2) ||
      lapsed.entries.any (fun e => unblocked lapsed e.2),
    { board with tasks := refreshedTasks board.tasks nowMs })

end Didi.Blackboard
