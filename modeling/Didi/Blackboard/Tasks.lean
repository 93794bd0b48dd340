import Didi.Blackboard.Keys
import Didi.Lib.Run

/-!
# The tools on tasks, and calls on one board

`blackboardTaskCreate`, `blackboardTaskClaim`, `blackboardTaskUpdate`, `blackboardTaskComplete` and
`blackboardTaskList` refresh the tasks of the board they load before anything else;
`blackboardReadResource` sweeps the board, and refreshes its tasks when the sweep dropped nothing.

* `step` : one call on the board's file, with its answer or its failure;
* `Operation.sweeps` : the operations that drop what has lapsed before anything else, among them
  `Operation.savesSweep`, which store what that leaves;
* `Operation.isLook` : the reads, the listings, the resource reads and the dry runs.

The calls on a board take its lock one after the other, so a run on one board is the list of its
calls in that order. Each call carries the reading of its clock, which it took before it waited.
-/

namespace Didi.Blackboard
open Locked

def kBlackboardMaxTasks : Nat := 2000
def kBlackboardMaxTaskIdBytes : Nat := 128
def kBlackboardMaxTaskTitleCharacters : Nat := 512
def kBlackboardMaxTaskTextCharacters : Nat := 4096
def kBlackboardMaxTaskDependencies : Nat := 64
def kBlackboardMaxTaskTags : Nat := 16
def kBlackboardMaxTaskNotes : Nat := 100
def kBlackboardMaxLeaseSeconds : Int := 24 * 60 * 60
def kBlackboardDefaultLeaseSeconds : Int := 300

def isLegalTaskId (id : String) : Bool :=
  id ≠ "" && id.utf8ByteSize ≤ kBlackboardMaxTaskIdBytes &&
    id.toList.all fun c => c.isAlphanum || c = '_' || c = '-' || c = '.'

structure TaskAnswer where
  board : String
  /-- The task as stored; a dry run answers the one it would store. -/
  task : Option Task
  dryRun : Bool

/-! ## Create -/

structure BlackboardTaskCreateRequest where
  board : String := "default"
  /-- Generated when empty. -/
  taskId : String := ""
  title : String
  description : Option String := none
  author : Option String := none
  assignedTo : Option String := none
  dependencies : List String := []
  tags : List String := []
  priority : Int := 0
  dryRun : Bool := false

/-- One run of the search loop; the head of `stack` is the top of the source's stack. -/
def cycleSearch (tasks : OrderedMap String Task) (taskId : String) :
    Nat → List String → List String → Bool
  | 0, _, _ => false
  | _ + 1, [], _ => false
  | fuel + 1, current :: stack, seen =>
    if current = taskId then true
    else if current ∈ seen then cycleSearch tasks taskId fuel stack seen
    else
      match tasks.get current with
      | none => cycleSearch tasks taskId fuel stack (current :: seen)
      | some task => cycleSearch tasks taskId fuel (task.dependencies.reverse ++ stack) (current :: seen)

/-- What the search can push: the first dependencies, and those of each task once. -/
def searchBound (tasks : OrderedMap String Task) (dependencies : List String) : Nat :=
  dependencies.length + (tasks.entries.map fun e => e.2.dependencies.length).sum

/-- Whether a dependency leads back to the task. -/
def createsCycle (tasks : OrderedMap String Task) (taskId : String) (dependencies : List String) : Bool :=
  cycleSearch tasks taskId (searchBound tasks dependencies + 1) dependencies.reverse []

/-- The first free `TASK-n`; empty when there is none. -/
def generateTaskId (tasks : OrderedMap String Task) : String :=
  (((List.range (kBlackboardMaxTasks + 1)).map fun index => "TASK-" ++ toString (index + 1)).find?
    fun candidate => !tasks.contains candidate).getD ""

/-- Refuse a dependency that is the task itself or that is unknown. -/
def checkDependencies (tasks : OrderedMap String Task) (taskId : String) :
    List String → Except Error Unit
  | [] => .ok ()
  | dependency :: dependencies =>
    if dependency = taskId then .error (.invalidArgument "a task cannot depend on itself")
    else if !tasks.contains dependency then
      .error (.invalidArgument ("dependency '" ++ dependency ++ "' does not exist"))
    else checkDependencies tasks taskId dependencies

def newTask (request : BlackboardTaskCreateRequest) (taskId : String) (nowMs : Int) (ready : Bool) : Task where
  taskId := taskId
  title := request.title
  description := request.description
  author := request.author
  assignedTo := request.assignedTo
  dependencies := request.dependencies
  tags := request.tags
  priority := request.priority
  status := if ready then .pending else .blocked
  progress := 0
  notes := []
  artifacts := .object []
  createdAtMs := nowMs
  updatedAtMs := nowMs
  completedAtMs := none
  lease := none

/-- The task a creation would store, on a refreshed board. -/
def planCreate (request : BlackboardTaskCreateRequest) (nowMs : Int) (board : Board) :
    Except Error Task := do
  Except.require (board.tasks.size < kBlackboardMaxTasks) (.invalidArgument
    ("the board already holds " ++ toString kBlackboardMaxTasks ++ " tasks"))
  let taskId := if request.taskId = "" then generateTaskId board.tasks else request.taskId
  Except.require (taskId ≠ "") (.internal "no free task id is available")
  Except.require (board.tasks.contains taskId = false)
    (.invalidArgument ("task '" ++ taskId ++ "' already exists"))
  checkDependencies board.tasks taskId request.dependencies
  Except.require (createsCycle board.tasks taskId request.dependencies = false) (.invalidArgument
    "those dependencies would create a cycle, and nothing in it could ever be claimed")
  return newTask request taskId nowMs (request.dependencies.all (isCompleted board.tasks))

def blackboardTaskCreate (request : BlackboardTaskCreateRequest) (nowMs : Int) : BoardM TaskAnswer := do
  require (request.title ≠ "" ∧ request.title.length ≤ kBlackboardMaxTaskTitleCharacters)
    (.error (.invalidArgument
      ("title must be 1 to " ++ toString kBlackboardMaxTaskTitleCharacters ++ " characters")))
  require (request.taskId = "" ∨ isLegalTaskId request.taskId = true) (.error (.invalidArgument
    ("task_id must be 1 to " ++ toString kBlackboardMaxTaskIdBytes ++
      " characters of letters, digits, underscore, hyphen or dot")))
  require (request.dependencies.length ≤ kBlackboardMaxTaskDependencies) (.error (.invalidArgument
    ("a task may declare at most " ++ toString kBlackboardMaxTaskDependencies ++ " dependencies")))
  require (request.tags.length ≤ kBlackboardMaxTaskTags) (.error (.invalidArgument
    ("a task may carry at most " ++ toString kBlackboardMaxTaskTags ++ " tags")))
  withBoardLock request.board do
    let loaded ← loadBoard
    let board := (refreshTasks loaded nowMs).2
    let task ← liftResult (planCreate request nowMs board)
    if request.dryRun then
      return { board := request.board, task := some task, dryRun := request.dryRun }
    let stored ← saveAndReadBack { board with tasks := board.tasks.insert task.taskId task }
    return { board := request.board, task := stored.tasks.get task.taskId, dryRun := request.dryRun }

/-! ## Claim -/

structure BlackboardTaskClaimRequest where
  board : String := "default"
  agentId : String
  /-- Claim this task, or else the best ready one. -/
  taskId : Option String := none
  tag : Option String := none
  leaseSeconds : Int := kBlackboardDefaultLeaseSeconds
  dryRun : Bool := false

inductive ClaimAnswer
  | claimed (board : String) (task : Option Task) (dryRun : Bool)
  | notClaimed (board : String) (dryRun : Bool) (reasonCode reason : String)

def taskCarriesTag (task : Task) (tag : String) : Bool := task.tags.any fun entry => entry = tag

/-- Where the scan for a claim stands. -/
structure Scan where
  chosen : String := ""
  bestPriority : Int := 0
  bestCreated : Int := 0
  considered : Nat := 0
  leasedAway : Nat := 0
  blockedCount : Nat := 0

def scanTask (request : BlackboardTaskClaimRequest) (nowMs : Int) (scan : Scan) (entry : String × Task) :
    Scan :=
  let task := entry.2
  if request.taskId.any fun taskId => entry.1 ≠ taskId then scan
  else if request.tag.any fun tag => !taskCarriesTag task tag then scan
  else
    let scan := { scan with considered := scan.considered + 1 }
    if hasLiveLease task nowMs then { scan with leasedAway := scan.leasedAway + 1 }
    else if task.status = .blocked then { scan with blockedCount := scan.blockedCount + 1 }
    else if task.status ≠ .pending then scan
    else if scan.chosen = "" ∨ scan.bestPriority < task.priority ∨
        (task.priority = scan.bestPriority ∧ task.createdAtMs < scan.bestCreated) then
      { scan with chosen := entry.1, bestPriority := task.priority, bestCreated := task.createdAtMs }
    else scan

def scanTasks (request : BlackboardTaskClaimRequest) (nowMs : Int) (board : Board) : Scan :=
  board.tasks.entries.foldl (scanTask request nowMs) {}

/-- The task a scan chose; the empty key stands for none. -/
def chosenTask (board : Board) (scan : Scan) : Option Task :=
  if scan.chosen = "" then none else board.tasks.get scan.chosen

/-- The refusal of a claim that named a task. -/
def claimRefusal (request : BlackboardTaskClaimRequest) (taskId : String) (nowMs : Int) (board : Board) :
    Error :=
  match board.tasks.get taskId with
  | none => .notFound ("task '" ++ taskId ++ "' does not exist")
  | some found =>
    if hasLiveLease found nowMs then
      { code := 409
        message := "task '" ++ taskId ++ "' is leased by " ++ leaseOwner found ++ ", not " ++ request.agentId
        data := .object [("leased_by", .string (leaseOwner found)),
          ("reason_code", .string "already_leased"), ("task_status", .string found.status.text)] }
    else if request.tag.any fun tag => !taskCarriesTag found tag then
      { code := 409
        message := "task '" ++ taskId ++ "' does not carry the tag '" ++ request.tag.getD "" ++ "'"
        data := .object [("reason_code", .string "tag_mismatch"),
          ("task_status", .string found.status.text)] }
    else
      { code := 409
        message := "task '" ++ taskId ++ "' is " ++ found.status.text ++ ", not pending"
        data := .object [("reason_code", .string (if found.status = .blocked then "blocked_by_dependency"
          else "not_pending")), ("task_status", .string found.status.text)] }

/-- The code and the sentence for a claim that found nothing. -/
def nothingReason (scan : Scan) : String × String :=
  if scan.considered = 0 then ("no_tasks", "the board holds no task matching this request")
  else if 0 < scan.leasedAway then
    ("all_leased", "the tasks that could be claimed are leased by other agents")
  else if 0 < scan.blockedCount then
    ("all_blocked", "every remaining task is blocked by a dependency")
  else ("no_ready_task", "no task is ready to claim")

/-- The answer of a claim that found nothing: a refusal when it named a task. -/
def notClaimedAnswer (request : BlackboardTaskClaimRequest) (nowMs : Int) (board : Board) :
    Except Failure ClaimAnswer :=
  match request.taskId with
  | some taskId => .error (.error (claimRefusal request taskId nowMs board))
  | none =>
    let reason := nothingReason (scanTasks request nowMs board)
    .ok (.notClaimed request.board request.dryRun reason.1 reason.2)

def claimTask (request : BlackboardTaskClaimRequest) (nowMs : Int) (task : Task) : Task :=
  { task with
    status := .inProgress
    assignedTo := some request.agentId
    updatedAtMs := nowMs
    lease := some {
      owner := request.agentId
      grantedAtMs := some nowMs
      expiresAtMs := nowMs + request.leaseSeconds * 1000
      leaseSeconds := request.leaseSeconds } }

def blackboardTaskClaim (request : BlackboardTaskClaimRequest) (nowMs : Int) : BoardM ClaimAnswer := do
  require (request.agentId ≠ "" ∧ request.agentId.utf8ByteSize ≤ kBlackboardMaxTaskIdBytes)
    (.error (.invalidArgument
      ("agent_id must be 1 to " ++ toString kBlackboardMaxTaskIdBytes ++ " bytes")))
  require (1 ≤ request.leaseSeconds ∧ request.leaseSeconds ≤ kBlackboardMaxLeaseSeconds)
    (.error (.invalidArgument
      ("lease_seconds must be between 1 and " ++ toString kBlackboardMaxLeaseSeconds)))
  withBoardLock request.board do
    let loaded ← loadBoard
    let (refreshed, board) := refreshTasks loaded nowMs
    let scan := scanTasks request nowMs board
    match chosenTask board scan with
    | none =>
      -- the leases this call reclaimed are kept whether or not it claims anything
      if !request.dryRun && refreshed then saveBoard board
      ofExcept (notClaimedAnswer request nowMs board)
    | some task =>
      let claimed := claimTask request nowMs task
      if request.dryRun then return .claimed request.board (some claimed) request.dryRun
      let stored ← saveAndReadBack { board with tasks := board.tasks.insert scan.chosen claimed }
      return .claimed request.board (stored.tasks.get scan.chosen) request.dryRun

/-! ## Update -/

structure BlackboardTaskUpdateRequest where
  board : String := "default"
  taskId : String
  agentId : String
  progress : Option Int := none
  note : Option String := none
  status : Option String := none
  renewLeaseSeconds : Option Int := none
  dryRun : Bool := false

/-- The statuses an update may set. -/
def settableStatus (status : String) : Option TaskStatus :=
  if status = TaskStatus.needsReview.text then some .needsReview
  else if status = TaskStatus.failed.text then some .failed
  else if status = TaskStatus.pending.text then some .pending
  else none

def alreadyCompleted (taskId : String) : Error where
  code := 409
  message := "task '" ++ taskId ++ "' is already completed"
  data := .object [("reason_code", .string "already_completed"),
    ("task_status", .string TaskStatus.completed.text)]

def leasedByAnother (taskId : String) (task : Task) (agentId : String) : Error where
  code := 409
  message := "task '" ++ taskId ++ "' is leased by " ++ leaseOwner task ++ ", not " ++ agentId

def reopening (request : BlackboardTaskUpdateRequest) : Bool :=
  request.status = some TaskStatus.pending.text

/-- The refusal of an update on a task, if any. -/
def updateProblem (request : BlackboardTaskUpdateRequest) (nowMs : Int) (task : Task) : Option Error :=
  if task.status = .completed then some (alreadyCompleted request.taskId)
  else if hasLiveLease task nowMs then
    if leaseOwner task ≠ request.agentId then
      some (leasedByAnother request.taskId task request.agentId)
    else none
  else if reopening request then
    -- a review outcome is somebody else's call, so reopening needs no lease
    if task.status ≠ .needsReview ∧ task.status ≠ .failed then
      some (.invalidArgument "only a needs_review or failed task can be reopened")
    else none
  else some {
    code := 409
    message := "task '" ++ request.taskId ++ "' holds no live lease; claim it before updating it" }

def addNote (notes : List Note) (note : Note) : List Note :=
  (if kBlackboardMaxTaskNotes ≤ notes.length then notes.tail else notes) ++ [note]

/-- The lease after a renewal. -/
def renewLease (lease : Option Lease) (agentId : String) (nowMs seconds : Int) : Lease where
  owner := agentId
  grantedAtMs := lease.bind Lease.grantedAtMs
  expiresAtMs := nowMs + seconds * 1000
  leaseSeconds := seconds

/-- Set the status, which hands the work back, or else renew the lease. -/
def updateStatus (request : BlackboardTaskUpdateRequest) (nowMs : Int) (task : Task) : Task :=
  match request.status with
  | some status =>
    { task with
      status := (settableStatus status).getD task.status
      lease := none
      assignedTo := if reopening request then none else task.assignedTo }
  | none =>
    match request.renewLeaseSeconds with
    | some seconds => { task with lease := some (renewLease task.lease request.agentId nowMs seconds) }
    | none => task

def updateTask (request : BlackboardTaskUpdateRequest) (nowMs : Int) (task : Task) : Task :=
  let noted : Task :=
    { task with
      progress := request.progress.getD task.progress
      notes := match request.note with
        | some note => addNote task.notes { atMs := nowMs, agent := request.agentId, note := note }
        | none => task.notes }
  { updateStatus request nowMs noted with updatedAtMs := nowMs }

/-- The task an update would store, on a refreshed board. -/
def planUpdate (request : BlackboardTaskUpdateRequest) (nowMs : Int) (board : Board) : Except Error Task :=
  match board.tasks.get request.taskId with
  | none => .error (.notFound ("task '" ++ request.taskId ++ "' does not exist"))
  | some task =>
    match updateProblem request nowMs task with
    | some problem => .error problem
    | none => .ok (updateTask request nowMs task)

def blackboardTaskUpdate (request : BlackboardTaskUpdateRequest) (nowMs : Int) : BoardM TaskAnswer := do
  require (isLegalTaskId request.taskId = true) (.error (.invalidArgument "task_id is not legal"))
  require (request.agentId ≠ "") (.error (.invalidArgument "agent_id is required"))
  require (request.progress.all (fun progress => 0 ≤ progress && progress ≤ 100) = true)
    (.error (.invalidArgument "progress must be between 0 and 100"))
  require (request.note.all (fun note => note.utf8ByteSize ≤ kBlackboardMaxTaskTextCharacters) = true)
    (.error (.invalidArgument
      ("note must be at most " ++ toString kBlackboardMaxTaskTextCharacters ++ " bytes")))
  require (request.status.all (fun status => (settableStatus status).isSome) = true)
    (.error (.invalidArgument "status may only be set to needs_review, failed, or pending to reopen"))
  require (request.renewLeaseSeconds.all
      (fun seconds => 1 ≤ seconds && seconds ≤ kBlackboardMaxLeaseSeconds) = true)
    (.error (.invalidArgument
      ("renew_lease_seconds must be between 1 and " ++ toString kBlackboardMaxLeaseSeconds)))
  withBoardLock request.board do
    let loaded ← loadBoard
    let board := (refreshTasks loaded nowMs).2
    let task ← liftResult (planUpdate request nowMs board)
    if request.dryRun then
      return { board := request.board, task := some task, dryRun := request.dryRun }
    let updated := { board with tasks := board.tasks.insert request.taskId task }
    let stored ← saveAndReadBack (refreshTasks updated nowMs).2
    return { board := request.board, task := stored.tasks.get request.taskId, dryRun := request.dryRun }

/-! ## Complete -/

structure BlackboardTaskCompleteRequest where
  board : String := "default"
  taskId : String
  agentId : String
  artifacts : Json := .null
  dryRun : Bool := false

structure CompleteAnswer where
  board : String
  /-- The task as stored; a dry run answers the one it would store. -/
  task : Option Task
  unblocked : List String
  dryRun : Bool

/-- The refusal of a completion of a task, if any. -/
def completeProblem (request : BlackboardTaskCompleteRequest) (nowMs : Int) (task : Task) : Option Error :=
  if task.status = .completed then some (alreadyCompleted request.taskId)
  else if !hasLiveLease task nowMs then some {
    code := 409
    message := "task '" ++ request.taskId ++ "' holds no live lease; claim it before completing it" }
  else if leaseOwner task ≠ request.agentId then
    some (leasedByAnother request.taskId task request.agentId)
  else none

def isNull : Json → Bool
  | .null => true
  | _ => false

def completeTask (request : BlackboardTaskCompleteRequest) (nowMs : Int) (task : Task) : Task :=
  { task with
    status := .completed
    progress := 100
    completedAtMs := some nowMs
    updatedAtMs := nowMs
    assignedTo := some request.agentId
    artifacts := if isNull request.artifacts then task.artifacts else request.artifacts
    lease := none }

/-- The task a completion would store, on a refreshed board. -/
def planComplete (request : BlackboardTaskCompleteRequest) (nowMs : Int) (board : Board) :
    Except Error Task :=
  match board.tasks.get request.taskId with
  | none => .error (.notFound ("task '" ++ request.taskId ++ "' does not exist"))
  | some task =>
    match completeProblem request nowMs task with
    | some problem => .error problem
    | none => .ok (completeTask request nowMs task)

/-- The tasks that are pending in `projected` and were blocked before. -/
def releasedTasks (board projected : Board) : List String :=
  (projected.tasks.entries.filter fun e => e.2.status = .pending &&
    (board.tasks.get e.1).any fun before => before.status = .blocked).map Prod.fst

def blackboardTaskComplete (request : BlackboardTaskCompleteRequest) (nowMs : Int) :
    BoardM CompleteAnswer := do
  require (isLegalTaskId request.taskId = true) (.error (.invalidArgument "task_id is not legal"))
  require (request.agentId ≠ "") (.error (.invalidArgument "agent_id is required"))
  require (isNull request.artifacts = true ∨ request.artifacts.dumpSize ≤ kBlackboardMaxValueBytes)
    (.error (.invalidArgument "artifacts is larger than the single value limit"))
  withBoardLock request.board do
    let loaded ← loadBoard
    let board := (refreshTasks loaded nowMs).2
    let task ← liftResult (planComplete request nowMs board)
    let projected := (refreshTasks { board with tasks := board.tasks.insert request.taskId task } nowMs).2
    let released := releasedTasks board projected
    if request.dryRun then
      return {
        board := request.board
        task := some task
        unblocked := released
        dryRun := request.dryRun }
    let stored ← saveAndReadBack { board with tasks := projected.tasks }
    return {
      board := request.board
      task := stored.tasks.get request.taskId
      unblocked := released
      dryRun := request.dryRun }

/-! ## List -/

structure BlackboardTaskListRequest where
  board : String := "default"
  status : Option String := none
  assignedTo : Option String := none
  tag : Option String := none
  maxTasks : Nat := 200

structure TasksAnswer where
  board : String
  tasks : List Task
  returned : Nat
  total : Nat
  truncated : Bool

def listed (request : BlackboardTaskListRequest) (task : Task) : Bool :=
  request.status.all (fun status => task.status.text = status) &&
    request.assignedTo.all (fun assigned => task.assignedTo = some assigned) &&
    request.tag.all (taskCarriesTag task)

def listTasks (request : BlackboardTaskListRequest) (board : Board) : TasksAnswer :=
  let matched := (board.tasks.entries.map Prod.snd).filter (listed request)
  let tasks := matched.take request.maxTasks
  { board := request.board
    tasks := tasks
    returned := tasks.length
    total := matched.length
    truncated := tasks.length < matched.length }

def blackboardTaskList (request : BlackboardTaskListRequest) (nowMs : Int) : BoardM TasksAnswer := do
  require (1 ≤ request.maxTasks ∧ request.maxTasks ≤ kBlackboardMaxTasks) (.error (.invalidArgument
    ("max_tasks must be between 1 and " ++ toString kBlackboardMaxTasks)))
  withBoardLock request.board do
    let loaded ← loadBoard
    let (changed, board) := refreshTasks loaded nowMs
    if changed then saveBoard board
    return listTasks request board

/-! ## Resources -/

inductive ResourceAnswer
  | state (board : String) (existed : Bool) (state : JsonObject) («meta» : OrderedMap String Meta)
  | tasks (board : String) (existed : Bool) (tasks : List Task) (count : Nat)

/-- The board a resource read answers from, and whether it is to be stored: the refresh is skipped
when the sweep dropped something. -/
def sweepOrRefresh (loaded : Board) (nowMs : Int) : Except JsonException (Bool × Board) := do
  let (dropped, swept) ← sweepExpired loaded nowMs
  if dropped then return (true, swept)
  return refreshTasks swept nowMs

def resourceAnswer (board kind : String) (existed : Bool) (boardData : Board) : ResourceAnswer :=
  if kind = "state" then .state board existed boardData.state boardData.meta
  else
    let tasks := boardData.tasks.entries.map Prod.snd
    .tasks board existed tasks tasks.length

def blackboardReadResource (board kind : String) (nowMs : Int) : BoardM ResourceAnswer := do
  require (kind = "state" ∨ kind = "tasks") (.error (.invalidArgument
    "blackboard resource kind must be state or tasks"))
  withBoardLock board do
    let file ← fetch
    let loaded ← loadBoard
    let (changed, boardData) ← liftThrows (sweepOrRefresh loaded nowMs)
    if changed then saveBoard boardData
    return resourceAnswer board kind file.isSome boardData

/-! ## Calls on one board -/

inductive Operation
  | write (request : BlackboardWriteRequest)
  | read (request : BlackboardReadRequest)
  | patch (request : BlackboardPatchRequest)
  | listKeys (request : BlackboardListKeysRequest)
  | clear (request : BlackboardClearRequest)
  | taskCreate (request : BlackboardTaskCreateRequest)
  | taskClaim (request : BlackboardTaskClaimRequest)
  | taskUpdate (request : BlackboardTaskUpdateRequest)
  | taskComplete (request : BlackboardTaskCompleteRequest)
  | taskList (request : BlackboardTaskListRequest)
  | readResource (board kind : String)

inductive Answer
  | write (answer : WriteAnswer)
  | read (answer : ReadAnswer)
  | patch (answer : PatchAnswer)
  | listKeys (answer : KeysAnswer)
  | clear (answer : ClearAnswer)
  | taskCreate (answer : TaskAnswer)
  | taskClaim (answer : ClaimAnswer)
  | taskUpdate (answer : TaskAnswer)
  | taskComplete (answer : CompleteAnswer)
  | taskList (answer : TasksAnswer)
  | readResource (answer : ResourceAnswer)

structure Call where
  operation : Operation
  nowMs : Int

def Operation.perform (nowMs : Int) : Operation → BoardM Answer
  | .write request => do return .write (← blackboardWrite request nowMs)
  | .read request => do return .read (← blackboardRead request nowMs)
  | .patch request => do return .patch (← blackboardPatch request nowMs)
  | .listKeys request => do return .listKeys (← blackboardListKeys request nowMs)
  | .clear request => do return .clear (← blackboardClear request nowMs)
  | .taskCreate request => do return .taskCreate (← blackboardTaskCreate request nowMs)
  | .taskClaim request => do return .taskClaim (← blackboardTaskClaim request nowMs)
  | .taskUpdate request => do return .taskUpdate (← blackboardTaskUpdate request nowMs)
  | .taskComplete request => do return .taskComplete (← blackboardTaskComplete request nowMs)
  | .taskList request => do return .taskList (← blackboardTaskList request nowMs)
  | .readResource board kind => do return .readResource (← blackboardReadResource board kind nowMs)

/-- One call on the board's file. -/
def step (file : File) (call : Call) : Except Failure Answer × File :=
  (call.operation.perform call.nowMs).run file

def succeeded (r : Except Failure Answer) : Bool :=
  match r with
  | .ok _ => true
  | .error _ => false

/-- Whether an operation sweeps the board it loads. The tools on tasks do not. -/
def Operation.sweeps : Operation → Bool
  | .write _ | .read _ | .patch _ | .listKeys _ | .clear _ | .readResource _ _ => true
  | .taskCreate _ | .taskClaim _ | .taskUpdate _ | .taskComplete _ | .taskList _ => false

/-- Whether an operation stores the board that its sweep leaves, and nothing else. -/
def Operation.savesSweep : Operation → Bool
  | .read _ | .listKeys _ | .readResource _ _ => true
  | _ => false

/-- Whether a request asks to look and not to change anything. -/
def Operation.isLook : Operation → Bool
  | .write request => request.dryRun
  | .read _ => true
  | .patch request => request.dryRun
  | .listKeys _ => true
  | .clear request => request.dryRun
  | .taskCreate request => request.dryRun
  | .taskClaim request => request.dryRun
  | .taskUpdate request => request.dryRun
  | .taskComplete request => request.dryRun
  | .taskList _ => true
  | .readResource _ _ => true

end Didi.Blackboard
